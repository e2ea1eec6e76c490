import TagWalk.LogRecord
import TagWalk.Options

/-! # Declarations

A **declaration** is what an opening tag says between `<` and `>`: an element name, attributes, and
whether the element closes itself. Its text is cut at single spaces; the first piece is the name,
and each further piece is an attribute or is skipped. -/

namespace TagWalk

/-- What an opening tag says between its `<` and its `>`. -/
structure Declaration where
  /-- The element name, as written. -/
  name : Bytes
  /-- The attributes that were kept, in the order of the tag. -/
  attributes : AttributeList
  /-- Whether the tag ends in a slash, so that the element has neither body nor closing tag. -/
  selfClosing : Bool
  deriving DecidableEq

namespace Declaration

/-- The text without the slash at its end, if it has one, and whether it has. Only the very last
byte counts: a slash before a space stays in its piece. -/
def stripSlash (text : Bytes) : Bytes × Bool :=
  if text.getLast? = some Byte.slash then (text.dropLast, true) else (text, false)

/-- **Collect the attributes among the pieces** behind the `kept` ones, and say whether one was left
over. A piece for which `Attribute.ofPiece?` has no answer is skipped, and the first attribute
without room ends the work. -/
def collect (kept : AttributeList) : List Bytes → AttributeList × Bool
  | [] => (kept, false)
  | piece :: pieces =>
      match Attribute.ofPiece? piece with
      | none => collect kept pieces
      | some attr =>
          match kept.push attr with
          | .ok kept => collect kept pieces
          -- what stands behind the surplus attribute no longer matters
          | .error _ => (kept, true)

/-- **The declaration written in a text**: the slash at its end, then the pieces between spaces, the
first one for the name and the others for attributes. `position` is where its tag opens and serves
to report an empty name; `overflow` decides over a surplus attribute. -/
def decode (overflow : Overflow) (position : Nat) (text : Bytes) : Logged Declaration :=
  let (inner, selfClosing) := stripSlash text
  let (name, pieces) := inner.pieces Byte.space
  if name.isEmpty then .quiet (.error (.emptyDeclaration position))
  else
    match collect .empty pieces, overflow with
    | (attributes, false), _ => .quiet (.ok ⟨name, attributes, selfClosing⟩)
    | (attributes, true), .truncate =>
        ⟨[.truncatingAttributes name], .ok ⟨name, attributes, selfClosing⟩⟩
    | (_, true), .reject =>
        .quiet (.error (.tooManyAttributes (Utf8.lossy name) AttributeList.capacity))

end Declaration

end TagWalk
