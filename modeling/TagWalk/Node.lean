import TagWalk.Declaration.Basic

/-! # Nodes

A **node** is an opening tag met in a document: its declaration, and the offset just past it, where
the body starts. The offset finds the node's closing tag later; it says nothing about where a reader
now is. -/

namespace TagWalk

/-- An opening tag met in a document. Two nodes with one `bodyStart` are the same place of a
document. -/
structure Node extends Declaration where
  /-- Offset just past the tag. -/
  bodyStart : Nat
  deriving DecidableEq

namespace Node

/-- The name as text, when it is text: `Utf8.decode? node.name`. -/
def nameText? (node : Node) : Option String := Utf8.decode? node.name

/-- The value of the first attribute of a name, as `AttributeList.get?` finds it. -/
def attribute? (node : Node) (name : Bytes) : Option Bytes :=
  (node.attributes.get? name).map (·.value)

/-- The value of the first attribute of a name, when it has one and it is text. -/
def attributeText? (node : Node) (name : String) : Option String :=
  (node.attribute? (Utf8.encode name)).bind Utf8.decode?

/-- The closing tag that belongs to a node: `</name>`, which has three bytes more than the name. -/
def closingTag (node : Node) : Bytes :=
  Byte.lessThan :: Byte.slash :: (node.name ++ [Byte.greaterThan])

@[simp] theorem length_closingTag (node : Node) :
    node.closingTag.length = node.name.length + 3 := by
  simp [closingTag]

/-- A closing tag is not empty. -/
theorem closingTag_ne_nil (node : Node) : node.closingTag ≠ [] := List.cons_ne_nil _ _

end Node

end TagWalk
