import TagWalk.Declaration.Written

/-! # Markup trees

Documents as trees, beside the readers that take them apart. An **item** is a text, a declaration or
an element with its items, and `Item.render` writes it down. `Item.WellFormed` says of which trees
the parts can be told apart again. -/

namespace TagWalk

/-- A part of a document. Texts and declarations are kept as bytes; an element keeps its items, so a
document is a list of trees. -/
inductive Item
  /-- Text between tags. -/
  | text (bytes : Bytes)
  /-- A declaration, comment or processing instruction: its first byte and the bytes behind it. -/
  | markup (mark : UInt8) (content : Bytes)
  /-- An element that closes itself. -/
  | empty (name : Bytes) (attributes : AttributeList)
  /-- An element with a closing tag. -/
  | element (name : Bytes) (attributes : AttributeList) (items : List Item)

namespace Item

/-- The written front of an opening tag: `<`, the name and the attributes. The `>` or `/>` behind it
is left to `render`. -/
def opening (name : Bytes) (attributes : AttributeList) : Bytes :=
  Byte.lessThan :: (name ++ attributes.items.flatMap Attribute.written)

/-- The written closing tag of a name: `</name>`. -/
def closing (name : Bytes) : Bytes :=
  Byte.lessThan :: Byte.slash :: (name ++ [Byte.greaterThan])

mutual

/-- **The written item.** An element with items is its opening tag, `renderAll items` and its
closing tag. -/
def render : Item → Bytes
  | text bytes => bytes
  | markup mark content => Byte.lessThan :: mark :: (content ++ [Byte.greaterThan])
  | empty name attributes => opening name attributes ++ [Byte.slash, Byte.greaterThan]
  | element name attributes items =>
      opening name attributes ++ Byte.greaterThan :: (renderAll items ++ closing name)

/-- Written items, one behind the other, with nothing between them. -/
def renderAll : List Item → Bytes
  | [] => []
  | item :: items => render item ++ renderAll items

end

mutual

/-- The tags and the declarations that an item is written with, in the order in which they stand in
`render item`. -/
def tags : Item → List Bytes
  | text _ => []
  | markup mark content => [Byte.lessThan :: mark :: (content ++ [Byte.greaterThan])]
  | empty name attributes => [opening name attributes ++ [Byte.slash, Byte.greaterThan]]
  | element name attributes items =>
      (opening name attributes ++ [Byte.greaterThan]) :: (tagsAll items ++ [closing name])

/-- The tags and the declarations that items are written with, in order. -/
def tagsAll : List Item → List Bytes
  | [] => []
  | item :: items => tags item ++ tagsAll items

end

/-- A name is **clear** when it is not empty, has none of the bytes space, `<`, `>` and `/`, and
does not begin with `?` or `!` as declarations do. -/
structure IsClearName (name : Bytes) : Prop where
  /-- There is a name. -/
  ne_nil : name ≠ []
  /-- No byte separates, opens, ends or closes. -/
  not_mem : Byte.space ∉ name ∧ Byte.lessThan ∉ name ∧ Byte.greaterThan ∉ name ∧ Byte.slash ∉ name
  /-- The first byte is neither `?` nor `!`. -/
  head?_ne : name.head? ≠ some Byte.question ∧ name.head? ≠ some Byte.bang

/-- An attribute list is **clear** when its attributes are plain and have no `>`, so that a tag ends
where it was written to end. -/
def IsClearList (attributes : AttributeList) : Prop :=
  ∀ attr ∈ attributes.items,
    attr.IsPlain ∧ Byte.greaterThan ∉ attr.name ∧ Byte.greaterThan ∉ attr.value

mutual

/-- **An item whose written form shows its parts**: texts have no `<`, declarations begin with `?` or
`!` and have no `>`, and names and attributes are clear. -/
def WellFormed : Item → Prop
  | text bytes => Byte.lessThan ∉ bytes
  | markup mark content =>
      (mark = Byte.question ∨ mark = Byte.bang) ∧ Byte.greaterThan ∉ content
  | empty name attributes => IsClearName name ∧ IsClearList attributes
  | element name attributes items =>
      IsClearName name ∧ IsClearList attributes ∧ WellFormedAll items

/-- Every one of the items is well formed. -/
def WellFormedAll : List Item → Prop
  | [] => True
  | item :: items => WellFormed item ∧ WellFormedAll items

end

/-- Whether an item is an element, with items or without: `empty` or `element`. -/
def isElement : Item → Bool
  | empty .. | element .. => true
  | _ => false

end Item

end TagWalk
