import TagWalk.Attribute

/-! # Attribute lists

A tag keeps at most `AttributeList.capacity` attributes, in the order in which they were declared.
`push` hands an attribute back when there is no room for it, and `get?` answers with the first
attribute of a name. -/

namespace TagWalk

/-- The number of attributes that a list can hold, for every element alike. -/
def AttributeList.capacity : Nat := 10

/-- A list of at most `capacity` attributes, in the order of declaration. The bound is a field, so
no list outgrows it. -/
structure AttributeList where
  /-- The attributes. -/
  items : List Attribute
  /-- There are no more of them than there is room for. -/
  length_le : items.length ≤ AttributeList.capacity
  deriving DecidableEq

namespace AttributeList

/-- The list without attributes. -/
def empty : AttributeList := ⟨[], Nat.zero_le _⟩

/-- The number of attributes. -/
def length (list : AttributeList) : Nat := list.items.length

/-- Whether there is no attribute. -/
def isEmpty (list : AttributeList) : Bool := list.items.isEmpty

/-- Whether there is no room left: `list.length = capacity`. -/
def isFull (list : AttributeList) : Bool := decide (list.length = capacity)

/-- **Append an attribute**: `.ok` of the list with `attr` at its end, or `.error attr` when there
are `capacity` attributes already. -/
def push (list : AttributeList) (attr : Attribute) : Except Attribute AttributeList :=
  if h : list.items.length < capacity then
    .ok ⟨list.items ++ [attr], by simp only [List.length_append, List.length_singleton]; exact h⟩
  else .error attr

/-- The first attribute of a name; later ones of the same name are kept, and hidden by it. -/
def get? (list : AttributeList) (name : Bytes) : Option Attribute :=
  list.items.find? (·.name == name)

/-- The attributes as records, separated by commas and in brackets. -/
def render (list : AttributeList) : String :=
  "[" ++ ", ".intercalate (list.items.map Attribute.render) ++ "]"

@[simp] theorem items_empty : empty.items = [] := rfl

/-- A list is known by its attributes: `list.items = other.items` only for `list = other`, as the
bound has no data of its own. -/
theorem items_inj {list other : AttributeList} : list.items = other.items ↔ list = other := by
  rw [mk.injEq]

/-- There is room exactly as long as the list is not full. The bound `list.length_le` makes
`length ≠ capacity` into `length < capacity`. -/
theorem isFull_eq_false_iff (list : AttributeList) :
    list.isFull = false ↔ list.items.length < capacity := by
  have h : list.items.length ≤ capacity := list.length_le
  rw [isFull, decide_eq_false_iff_not, length]
  omega

/-- An accepted attribute stands at the end of the list: `pushed.items = list.items ++ [attr]`. -/
theorem items_push {list pushed : AttributeList} {attr : Attribute}
    (h : list.push attr = .ok pushed) : pushed.items = list.items ++ [attr] := by
  unfold push at h
  split at h <;> cases h
  rfl

/-- A push is refused when `list.isFull` and only then, and what is handed back is the attribute
that found no room. -/
theorem push_eq_error_iff {list : AttributeList} {attr refused : Attribute} :
    list.push attr = .error refused ↔ list.isFull = true ∧ refused = attr := by
  rw [← Bool.not_eq_false, isFull_eq_false_iff]
  unfold push
  split <;> rename_i h <;> simp [h, eq_comm]

/-- **The first attribute of a name**: `list.items = front ++ attr :: back`, and nothing in `front`
has the same name. -/
theorem get?_eq_some_iff {list : AttributeList} {name : Bytes} {attr : Attribute} :
    list.get? name = some attr ↔
      attr.name = name ∧ ∃ front back, list.items = front ++ attr :: back ∧
        ∀ other ∈ front, other.name ≠ name := by
  rw [get?, List.find?_eq_some_iff_append]
  simp only [beq_iff_eq, Bool.not_eq_true', beq_eq_false_iff_ne]

/-- The answer `none` means that no attribute bears the name. -/
theorem get?_eq_none_iff {list : AttributeList} {name : Bytes} :
    list.get? name = none ↔ ∀ attr ∈ list.items, attr.name ≠ name := by
  simp only [get?, List.find?_eq_none, beq_iff_eq, ne_eq]

end AttributeList

end TagWalk
