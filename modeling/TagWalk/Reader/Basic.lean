import TagWalk.Node
import TagWalk.Tag

/-! # Readers

A **reader** is one pass over a document: a cursor, the scopes that are open, the options, and a
mark that remembers which node was closed last. A node is known by the offset of its body, and the
mark is such an offset. -/

namespace TagWalk

/-- One open level of nesting: the document itself, or the children of an element. -/
structure Scope where
  /-- The name of the element whose children are enumerated, none for the document. -/
  element : Option Bytes
  /-- Where that element's body starts, `0` for the document. -/
  bodyStart : Nat
  deriving DecidableEq

/-- The scope in which the children of a node are enumerated, or, for `none`, the document's own. -/
def Scope.of : Option Node → Scope
  | none => ⟨none, 0⟩
  | some node => ⟨some node.name, node.bodyStart⟩

/-- A pass over one document. Only these four things are kept of what was done before. -/
structure Reader where
  /-- The document and the place in it. -/
  cursor : Cursor
  /-- The open scopes, the innermost first. -/
  scopes : List Scope
  /-- The options. -/
  options : Options
  /-- The body offset of the node whose closing tag was passed last. -/
  lastClosed : Option Nat
  deriving DecidableEq

namespace Reader

/-- A reader at the front of a document, without scopes and without a mark. -/
def ofDocument (document : Bytes) (options : Options) : Reader :=
  ⟨.ofDocument document, [], options, none⟩

/-- The whole document. -/
def document (reader : Reader) : Bytes := reader.cursor.document

/-- Offset of the next byte. -/
def position (reader : Reader) : Nat := reader.cursor.position

/-- The number of open scopes. -/
def depth (reader : Reader) : Nat := reader.scopes.length

/-- Whether no byte is left. -/
def isEof (reader : Reader) : Bool := reader.cursor.isEof

/-- The bytes that are left. -/
def remaining (reader : Reader) : Bytes := reader.cursor.remaining

/-- **The reader at the front of its document again**: three fields are set, the place to `0`, the
scopes to none of them and the mark to `none`. The document and the options are not touched, so this
is the reader that began (`reset_eq_ofDocument`). -/
def reset (reader : Reader) : Reader :=
  { reader with cursor := reader.cursor.setPosition 0, scopes := [], lastClosed := none }

/-- The reader at its place, without scopes and without a mark: what a parse begins with. -/
def dropScopes (reader : Reader) : Reader := { reader with scopes := [], lastClosed := none }

/-- The reader with a node marked as closed, by the offset of its body. -/
def markClosed (reader : Reader) (node : Node) : Reader :=
  { reader with lastClosed := some node.bodyStart }

/-- **Whether a node needs no search for its closing tag**: it closes itself, or it carries the
mark, `reader.lastClosed = some node.bodyStart`. -/
def isClosed (reader : Reader) (node : Node) : Bool :=
  node.selfClosing || decide (reader.lastClosed = some node.bodyStart)

/-- The reader just past a tag. -/
def passTag (reader : Reader) (tag : Tag) : Reader :=
  { reader with cursor := reader.cursor.passTag tag }

/-- **Open a scope** for the children of a node, or for the document. With `maxDepth` scopes open
there is no room for another, and the reader stays as it is. -/
def enterScope (reader : Reader) (element : Option Node) : Reader × Logged Unit :=
  if reader.options.maxDepth ≤ reader.depth then
    (reader, ⟨[.scopesFull reader.depth], .error (.depthExceeded reader.options.maxDepth)⟩)
  else
    let scope := Scope.of element
    ({ reader with scopes := scope :: reader.scopes },
      ⟨[.enterScope scope.element reader.depth], .ok ()⟩)

/-- **Leave the innermost scope**, if one is still open. The record names it, and counts the scopes
that are left. -/
def leaveScope (reader : Reader) : Reader × LogRecord :=
  match reader.scopes with
  | [] => (reader, .leaveScope none 0)
  | scope :: scopes => ({ reader with scopes }, .leaveScope scope.element scopes.length)

/-- **A reset leaves nothing of the past**: `reader.reset` is the reader that
`ofDocument reader.document reader.options` begins with. -/
theorem reset_eq_ofDocument (reader : Reader) :
    reader.reset = ofDocument reader.document reader.options := by
  have hcursor : reader.cursor.setPosition 0 = .ofDocument reader.document :=
    Cursor.ext_of_position rfl (Nat.zero_min _)
  rw [reset, hcursor, ofDocument]

/-- Leaving a scope takes the innermost one off, if there is one: `reader.scopes.tail`. -/
@[simp] theorem scopes_leaveScope (reader : Reader) :
    reader.leaveScope.1.scopes = reader.scopes.tail := by
  obtain ⟨cursor, scopes, options, lastClosed⟩ := reader
  cases scopes <;> rfl

/-- Leaving a scope changes no option. -/
@[simp] theorem options_leaveScope (reader : Reader) :
    reader.leaveScope.1.options = reader.options := by
  unfold leaveScope
  split <;> rfl

/-- Leaving a scope moves no cursor. -/
@[simp] theorem cursor_leaveScope (reader : Reader) :
    reader.leaveScope.1.cursor = reader.cursor := by
  unfold leaveScope
  split <;> rfl

/-- Leaving a scope leaves the mark. -/
@[simp] theorem lastClosed_leaveScope (reader : Reader) :
    reader.leaveScope.1.lastClosed = reader.lastClosed := by
  unfold leaveScope
  split <;> rfl

/-- **Open the node of a tag**: `Declaration.decode` of the bytes between `<` and `>`, with the body
behind the tag. The reader passes the tag first, so it stays there when the tag's text is no
declaration. -/
def openNode (reader : Reader) (tag : Tag) : Reader × Logged Node :=
  let passed := reader.passTag tag
  let text := reader.document.slice (tag.start + 1) tag.stop
  let decoded := Declaration.decode reader.options.overflow tag.start text
  (passed, ⟨decoded.log, decoded.result.map (⟨·, passed.position⟩)⟩)

end Reader

end TagWalk
