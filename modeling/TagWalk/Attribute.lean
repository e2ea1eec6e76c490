import TagWalk.Bytes.Split
import TagWalk.Bytes.Trim
import TagWalk.Text.Utf8

/-! # Attributes

An **attribute** is a name and a value, both as written in the tag. It is read from one piece of a
declaration: the bytes on the two sides of its only `=`, with the double quotes trimmed off the
value. A piece of any other shape is no attribute. -/

namespace TagWalk

/-- A name with a value, both as byte strings: neither needs to be text. -/
structure Attribute where
  /-- The name, as written. -/
  name : Bytes
  /-- The value without the double quotes around it. -/
  value : Bytes
  deriving DecidableEq

namespace Attribute

/-- The name as text, when it is text: `Utf8.decode? attr.name`. -/
def nameText? (attr : Attribute) : Option String := Utf8.decode? attr.name

/-- The value as text, when it is text: `Utf8.decode? attr.value`. -/
def valueText? (attr : Attribute) : Option String := Utf8.decode? attr.value

/-- **The attribute written in a piece of a declaration**: `name=value` with one `=`, and nothing
for a piece without it or with two. Every `"` at either end of the value is trimmed, matched or
not. -/
def ofPiece? (piece : Bytes) : Option Attribute :=
  (piece.splitPair? Byte.equals).map fun (name, value) => ⟨name, value.trim (· == Byte.quote)⟩

/-- A byte string as the list of its bytes in decimal: `[97, 98]` for the two letters `ab`. -/
def renderBytes (bytes : Bytes) : String :=
  "[" ++ ", ".intercalate (bytes.map fun byte => toString byte.toNat) ++ "]"

/-- An attribute as a record with its two fields `name` and `value`, each of them shown by
`renderBytes`. -/
def render (attr : Attribute) : String :=
  "Attribute \x7b name: " ++ renderBytes attr.name ++
    ", value: " ++ renderBytes attr.value ++ " \x7d"

end Attribute

end TagWalk
