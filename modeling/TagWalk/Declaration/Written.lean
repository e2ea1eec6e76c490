import TagWalk.Declaration.Basic

/-! # Written declarations

The canonical text of a declaration, beside `Declaration.decode`: the name, each attribute behind a
space and with its value in double quotes, and at the end a slash or a space. The final space keeps a
slash at the end of the last piece from being read as the tag's own.

`Declaration.IsPlain` describes the declarations that a text can spell. -/

namespace TagWalk

namespace Attribute

/-- **The written attribute**: ` name="value"`, with a space in front and double quotes around the
value. -/
def written (attr : Attribute) : Bytes :=
  Byte.space :: (attr.name ++ Byte.equals :: Byte.quote :: (attr.value ++ [Byte.quote]))

/-- An attribute is **plain** when it is one piece with one `=` and trimming leaves its value alone.
These are the attributes that `Attribute.ofPiece?` can answer with. -/
structure IsPlain (attr : Attribute) : Prop where
  /-- The name has no space. -/
  space_not_mem_name : Byte.space ∉ attr.name
  /-- The name has no `=`. -/
  equals_not_mem_name : Byte.equals ∉ attr.name
  /-- The value has no space. -/
  space_not_mem_value : Byte.space ∉ attr.value
  /-- The value has no `=`. -/
  equals_not_mem_value : Byte.equals ∉ attr.value
  /-- The value does not begin with a double quote. -/
  head?_value_ne : attr.value.head? ≠ some Byte.quote
  /-- The value does not end with a double quote. -/
  getLast?_value_ne : attr.value.getLast? ≠ some Byte.quote

end Attribute

namespace Declaration

/-- **The canonical text of a declaration**: `name a="b" c="d"` and then `/` for an element that
closes itself, and a space for any other one. -/
def written (declaration : Declaration) : Bytes :=
  declaration.name ++ declaration.attributes.items.flatMap Attribute.written ++
    [if declaration.selfClosing then Byte.slash else Byte.space]

/-- A declaration is **plain** when its name is one piece that is not empty and its attributes are
plain. These are the declarations that `Declaration.decode` can answer with. -/
structure IsPlain (declaration : Declaration) : Prop where
  /-- There is a name. -/
  name_ne_nil : declaration.name ≠ []
  /-- The name has no space. -/
  space_not_mem_name : Byte.space ∉ declaration.name
  /-- The attributes are plain. -/
  attributes_isPlain : ∀ attr ∈ declaration.attributes.items, attr.IsPlain

end Declaration

end TagWalk
