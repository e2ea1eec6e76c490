import TagWalk.Proofs.Checked
import TagWalk.Proofs.Desk

/-! # Lists in slots

A list of attributes lies in a fixed number of slots, of which the first ones are in use. Nothing promises
that no more slots are in use than there are; the attributes in use are a slice, which is impossible then.
What the other slots hold is left from the beginning, and comes along when a list is copied: it shows
neither in the attributes of a list, nor in what is found under a name, nor when two lists are compared.

* **`AttributeSlots.push`**, **`AttributeSlots.items`**, **`AttributeSlots.get?`**,
  **`AttributeSlots.equal`** — what is done with slots.
* **`AttributeSlots.Holds`** — slots with the attributes of a list in use; pushing keeps it so
  (**`AttributeSlots.Holds.push`**), and so do all moves (**`AttributeSlots.Holds.reached`**).
* **`AttributeSlots.kept_of_moves`** — what holds after any moves. -/

namespace TagWalk

/-- Slots for attributes, and the number `used` of those in use, which may be anything. -/
structure AttributeSlots where
  /-- All slots. -/
  slots : Vector Attribute AttributeList.capacity
  /-- How many of them are in use. -/
  used : Nat

namespace AttributeSlots

/-- Slots of which none is in use. -/
def blank (slots : Vector Attribute AttributeList.capacity) : AttributeSlots := ⟨slots, 0⟩

/-- Put an attribute into the first slot that is not in use, which is overwritten. The attribute is
handed back when there is no such slot. -/
def push (list : AttributeSlots) (attr : Attribute) : AttributeSlots × Option Attribute :=
  if h : list.used < AttributeList.capacity then
    (⟨list.slots.set list.used attr h, list.used + 1⟩, none)
  else (list, some attr)

/-- Whether every slot is in use: `used` is compared with the number of slots, and with nothing
else. -/
def isFull (list : AttributeSlots) : Bool := decide (list.used = AttributeList.capacity)

/-- The attributes in use, `slots[..used]`, when there are enough slots for them. -/
def items (list : AttributeSlots) : Checked (List Attribute) :=
  if list.used ≤ AttributeList.capacity then some (list.slots.toList.take list.used) else none

/-- The first attribute of a name among those in use; the slots behind them are not looked at. -/
def get? (list : AttributeSlots) (name : Bytes) : Checked (Option Attribute) := do
  let items ← list.items
  some (items.find? (·.name == name))

/-- Whether the same attributes are in use: the two slices are compared, one attribute after
another. -/
def equal (first second : AttributeSlots) : Checked Bool := do
  let items ← first.items
  let items' ← second.items
  some (items == items')

/-- The slots on a side, when the moves are made on slots of which none is in use and whose contents
are `leftover`. -/
def reached (leftover : Desk (Vector Attribute AttributeList.capacity)) (moves : List AttributeMove)
    (side : Desk.Side) : AttributeSlots :=
  ((⟨blank leftover.current, blank leftover.other⟩ : Desk AttributeSlots).moveAll push moves).list side

/-- **Slots that hold a list**: its attributes are those in use. -/
structure Holds (slots : AttributeSlots) (list : AttributeList) : Prop where
  /-- There are as many of them. -/
  used_eq : slots.used = list.length
  /-- They are the same. -/
  take_eq : slots.slots.toList.take slots.used = list.items

namespace Holds

variable {slots slots' : AttributeSlots} {list list' : AttributeList}

/-- **The slice of the attributes in use** is possible, and is `list.items`. -/
theorem items_eq (h : slots.Holds list) : slots.items = some list.items := by
  rw [items, if_pos (h.used_eq ▸ list.length_le), h.take_eq]

theorem isFull_eq (h : slots.Holds list) : slots.isFull = list.isFull := by
  rw [isFull, AttributeList.isFull, h.used_eq]

/-- What is found does not depend on the other slots: it is `list.get? name`. -/
theorem get?_eq (h : slots.Holds list) (name : Bytes) : slots.get? name = some (list.get? name) := by
  rw [get?, h.items_eq]
  rfl

/-- **Whether two lists are equal** does not depend on them either: `slots.equal slots'` decides
`list = list'`. -/
theorem equal_eq (h : slots.Holds list) (h' : slots'.Holds list') :
    slots.equal slots' = some (decide (list = list')) := by
  have hcompare : (list.items == list'.items) = decide (list = list') := by
    rw [Bool.eq_iff_iff, beq_iff_eq, decide_eq_true_iff, AttributeList.items_inj]
  rw [equal, h.items_eq, h'.items_eq, ← hcompare]
  rfl

/-- Slots that are all in use hand an attribute back, and hold what they held. -/
theorem push_of_full (h : slots.Holds list) (hfull : list.isFull = true) (attr : Attribute) :
    slots.push attr = (slots, some attr) := by
  have hused : slots.used = AttributeList.capacity := by
    rw [← h.isFull_eq] at hfull
    exact of_decide_eq_true hfull
  rw [push, dif_neg (by omega)]

/-- In any other slots, the attribute comes behind those in use, `list.items ++ [attr]`, whatever
the slot held before. -/
theorem push_of_room (h : slots.Holds list) (hroom : list.isFull = false) (attr : Attribute) :
    (slots.push attr).2 = none ∧ (slots.push attr).1.used = slots.used + 1 ∧
      (slots.push attr).1.slots.toList.take (slots.used + 1) = list.items ++ [attr] := by
  have hlt : slots.used < AttributeList.capacity :=
    h.used_eq ▸ (AttributeList.isFull_eq_false_iff list).mp hroom
  have hlength : slots.used < slots.slots.toList.length := by rwa [Vector.length_toList]
  have hset : slots.slots.toList.set slots.used attr =
      (list.items ++ [attr]) ++ slots.slots.toList.drop (slots.used + 1) := by
    rw [List.set_eq_take_append_cons_drop, if_pos hlength, h.take_eq, List.append_assoc]
    rfl
  have hitems : (list.items ++ [attr]).length = slots.used + 1 := by
    rw [List.length_append, h.used_eq]
    rfl
  rw [AttributeSlots.push, dif_pos hlt]
  refine ⟨rfl, rfl, ?_⟩
  rw [Vector.toList_set, hset, List.take_left' hitems]

/-- **Pushing** onto both keeps it so, and hands the same attribute back, if any:
`(list.offer attr).2`. -/
theorem push (h : slots.Holds list) (attr : Attribute) :
    (slots.push attr).1.Holds (list.offer attr).1 ∧ (slots.push attr).2 = (list.offer attr).2 := by
  cases hfull : list.isFull with
  | true =>
    rw [h.push_of_full hfull, AttributeList.offer_of_full hfull]
    exact ⟨h, rfl⟩
  | false =>
    -- the first slot not in use is the one behind the attributes of the list
    obtain ⟨hnone, hused, htake⟩ := h.push_of_room hfull attr
    obtain ⟨longer, hoffer, hitems⟩ := AttributeList.offer_of_room hfull attr
    rw [hoffer]
    refine ⟨⟨?_, ?_⟩, hnone⟩
    · rw [hused, h.used_eq, AttributeList.length, AttributeList.length, hitems, List.length_append]
      rfl
    · rw [hused, htake, hitems]

/-- **The same moves** on slots and on lists keep it so, whatever the slots hold in the beginning: a
copy copies what is left over as well, and a swap swaps it. -/
theorem reached (leftover : Desk (Vector Attribute AttributeList.capacity))
    (moves : List AttributeMove) (side : Desk.Side) :
    (reached leftover moves side).Holds (AttributeDesk.reached moves side) := by
  have hblank : Desk.Related Holds ⟨blank leftover.current, blank leftover.other⟩
      AttributeDesk.empty := by
    intro side
    cases side <;> exact ⟨rfl, rfl⟩
  exact hblank.moveAll (fun _ _ attr h => (h.push attr).1) moves side

end Holds

/-- **What slots show** of the list that they hold: all operations on them are possible, and come to
what they come to for the list. -/
structure Shows (slots : AttributeSlots) (list : AttributeList) : Prop where
  /-- The attributes in use are a slice of the slots, and those of the list. -/
  items_eq : slots.items = some list.items
  /-- There are as many of them. -/
  used_eq : slots.used = list.length
  /-- They fill the slots when the list is full. -/
  isFull_eq : slots.isFull = list.isFull
  /-- The same attribute is handed back, if any. -/
  refused_eq : ∀ attr, (slots.push attr).2 = (list.offer attr).2
  /-- When one is, all slots are as they were. -/
  push_of_full : list.isFull = true → ∀ attr, slots.push attr = (slots, some attr)
  /-- The same attribute is found. -/
  get?_eq : ∀ name, slots.get? name = some (list.get? name)

theorem Holds.shows {slots : AttributeSlots} {list : AttributeList} (h : slots.Holds list) :
    slots.Shows list :=
  ⟨h.items_eq, h.used_eq, h.isFull_eq, fun attr => (h.push attr).2, h.push_of_full, h.get?_eq⟩

/-- **A list keeps the first pushes over any history.** After any pushes, copies and swaps on two
empty lists, each of them has `(Desk.pushed moves side).take 10`, the first ten attributes of the
pushes that led to it; it is full when there were that many, and then the next one is handed back;
and a name finds the first attribute of that name. Slots that are moved in the same way show the
same, whatever they hold beyond the attributes in use. Two lists that came about in different ways
are equal exactly when they kept the same attributes in the same order, and so are two lists in
slots, whatever `leftover` and `leftover'` either of them holds beyond. -/
theorem kept_of_moves (leftover leftover' : Desk (Vector Attribute AttributeList.capacity))
    (moves moves' : List AttributeMove) (side side' : Desk.Side) :
    (AttributeDesk.reached moves side).Kept (Desk.pushed moves side) ∧
      (reached leftover moves side).Shows (AttributeDesk.reached moves side) ∧
      (AttributeDesk.reached moves side = AttributeDesk.reached moves' side' ↔
        (Desk.pushed moves side).take 10 = (Desk.pushed moves' side').take 10) ∧
      (reached leftover moves side).equal (reached leftover' moves' side') =
        some (decide ((Desk.pushed moves side).take 10 = (Desk.pushed moves' side').take 10)) := by
  have hkept := AttributeList.Keeps.reached moves side
  have hkept' := AttributeList.Keeps.reached moves' side'
  have hholds := Holds.reached leftover moves side
  have hholds' := Holds.reached leftover' moves' side'
  have hequal : AttributeDesk.reached moves side = AttributeDesk.reached moves' side' ↔
      (Desk.pushed moves side).take 10 = (Desk.pushed moves' side').take 10 := by
    rw [← AttributeList.items_inj, hkept, hkept']
    rfl
  refine ⟨hkept.kept, hholds.shows, hequal, ?_⟩
  rw [hholds.equal_eq hholds', decide_eq_decide.mpr hequal]

end AttributeSlots

end TagWalk
