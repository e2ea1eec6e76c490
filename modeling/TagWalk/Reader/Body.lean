import TagWalk.Reader.Basic

/-! # Bodies

The **body** of a node is what stands between its opening tag and the next closing tag of its name.
Markup in between is not looked at, so an inner element of the same name ends the body early. -/

namespace TagWalk

/-- The longest element name whose closing tag can be matched. -/
def maxNameLength : Nat := 256

namespace Cursor

/-- **Where the closing tag of a node stands**: the first occurrence of `node.closingTag` from
`node.bodyStart` on, wherever the cursor is. A tag too long for the rest of the document is reported
before a name too long to be matched, and that before a tag that does not occur. -/
def closingTagOf (cursor : Cursor) (node : Node) : Except Fault Nat :=
  let remaining := (cursor.tailFrom node.bodyStart).length
  if remaining < node.closingTag.length then
    .error (.closingTagOutOfRange (Utf8.lossy node.name) remaining)
  else if maxNameLength < node.name.length then
    .error (.nameTooLong node.name.length maxNameLength)
  else
    match cursor.findFrom? node.bodyStart node.closingTag with
    | none => .error (.closingTagNotFound (Utf8.lossy node.name))
    | some offset => .ok offset

end Cursor

namespace Reader

/-- What is logged when a closing tag is looked for: only that it does not occur, as
`.closingTagNotFound` says. -/
def closingTagLog (node : Node) : Except Fault Nat → List LogRecord
  | .error (.closingTagNotFound _) => [.noClosingTag node.name node.bodyStart]
  | _ => []

/-- **Read the body of a node** and mark the node as closed. The reader moves to
`max reader.position stop`, past the closing tag but never backwards; a failure changes nothing. A
node that closes itself has the body `[]` and moves nothing. -/
def readBody (reader : Reader) (node : Node) : Reader × Logged Bytes :=
  if node.selfClosing then (reader.markClosed node, .quiet (.ok []))
  else
    let found := reader.cursor.closingTagOf node
    match found with
    | .error fault => (reader, ⟨closingTagLog node found, .error fault⟩)
    | .ok offset =>
        let stop := offset + node.closingTag.length
        -- the reader may have been moved past this tag before
        let cursor := reader.cursor.setPosition (max reader.position stop)
        ({ reader with cursor }.markClosed node,
          .quiet (.ok (reader.document.slice node.bodyStart offset)))

end Reader

end TagWalk
