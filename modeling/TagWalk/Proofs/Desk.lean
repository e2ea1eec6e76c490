import Mathlib.Data.List.Induction
import TagWalk.AttributeList.Desk

/-! # What lists keep

Lists on a desk come about by pushes, copies and swaps in any order. The pushes that led to a list are
found by tracing it back through the moves, from the last one to the first: behind a copy both lists come
from the current one, and behind a swap each one comes from the other. A list of attributes keeps the
first ten of these pushes.

* **`Desk.list`** — the two lists of a desk, by their side; **`Desk.list_move`** — what a move does to the
  list on a side.
* **`Desk.Related`** — two desks whose lists are related on either side, and stay so under all moves when
  pushing relates them (**`Desk.Related.move`**, **`Desk.Related.moveAll`**).
* **`Desk.pushed`** — the pushes that led to a list.
* **`AttributeList.Keeps`** — a list with the first ten pushes; **`AttributeList.Kept`** — all that
  follows for it. -/

namespace TagWalk

namespace Desk

variable {ι κ : Type}

/-! ## Moves, side by side -/

/-- One of the two lists of a desk. -/
inductive Side
  /-- The list that is worked on. -/
  | current
  /-- The list put aside. -/
  | other
  deriving DecidableEq

/-- The list on a side. -/
def list (desk : Desk ι) : Side → ι
  | .current => desk.current
  | .other => desk.other

/-- The side on which the list lay before a move. Behind a copy both lists are what the current one
was, and behind a swap each one is what the other one was. A push leaves them on their sides. -/
def sideBefore : AttributeMove → Side → Side
  | .push _, side => side
  | .copy, _ => .current
  | .swap, .current => .other
  | .swap, .other => .current

/-- The attribute that a move pushes onto the list on a side: a push is onto `.current` only. -/
def pushedBy? : AttributeMove → Side → Option Attribute
  | .push attr, .current => some attr
  | _, _ => none

/-- **What a move does** to the list on a side: it is that of `sideBefore move side`, with
`pushedBy? move side` pushed onto it if there is one. -/
theorem list_move (push : ι → Attribute → ι × Option Attribute) (desk : Desk ι) (move : AttributeMove)
    (side : Side) :
    (desk.move push move).1.list side =
      match pushedBy? move side with
      | none => desk.list (sideBefore move side)
      | some attr => (push (desk.list (sideBefore move side)) attr).1 := by
  cases move <;> cases side <;> rfl

/-- One more move is made last. -/
theorem moveAll_concat (push : ι → Attribute → ι × Option Attribute) (desk : Desk ι)
    (moves : List AttributeMove) (move : AttributeMove) :
    desk.moveAll push (moves ++ [move]) = ((desk.moveAll push moves).move push move).1 := by
  rw [moveAll, List.foldl_append]
  rfl

/-! ## Related desks -/

/-- **Two desks whose lists are related**, on either side:
`relation (first.list side) (second.list side)`. -/
def Related (relation : ι → κ → Prop) (first : Desk ι) (second : Desk κ) : Prop :=
  ∀ side, relation (first.list side) (second.list side)

namespace Related

variable {pushFirst : ι → Attribute → ι × Option Attribute}
  {pushSecond : κ → Attribute → κ × Option Attribute} {relation : ι → κ → Prop} {first : Desk ι}
  {second : Desk κ}

/-- **A move** keeps lists related, when pushing does: both desks take the list from the same
side. -/
theorem move (hpush : ∀ list list' attr, relation list list' →
      relation (pushFirst list attr).1 (pushSecond list' attr).1)
    (h : Related relation first second) (move : AttributeMove) :
    Related relation (first.move pushFirst move).1 (second.move pushSecond move).1 := by
  intro side
  rw [list_move, list_move]
  cases pushedBy? move side with
  | none => exact h _
  | some attr => exact hpush _ _ attr (h _)

/-- So does every sequence of moves, by induction on it from the first move on. -/
theorem moveAll (hpush : ∀ list list' attr, relation list list' →
      relation (pushFirst list attr).1 (pushSecond list' attr).1)
    (h : Related relation first second) (moves : List AttributeMove) :
    Related relation (first.moveAll pushFirst moves) (second.moveAll pushSecond moves) := by
  induction moves generalizing first second with
  | nil => exact h
  | cons move moves ih => exact ih (h.move hpush move)

end Related

/-! ## Pushes -/

/-- The pushes that led to the list on a side, traced back from the last move to the first:
`sideBefore` says where to look next. -/
def traceBack : Side → List AttributeMove → List Attribute
  | _, [] => []
  | side, move :: earlier =>
      traceBack (sideBefore move side) earlier ++ (pushedBy? move side).toList

/-- **The pushes that led to a list**, in their order, with copies and swaps followed. It looks at
the moves alone. -/
def pushed (moves : List AttributeMove) (side : Side) : List Attribute := traceBack side moves.reverse

/-- The last move of all is traced back first, so `pushed` goes along with `moveAll_concat`. -/
theorem pushed_concat (moves : List AttributeMove) (move : AttributeMove) (side : Side) :
    pushed (moves ++ [move]) side =
      pushed moves (sideBefore move side) ++ (pushedBy? move side).toList := by
  rw [pushed, List.reverse_append]
  rfl

/-- What is pushed onto a list does not lead to the copy that was put aside before. -/
example (first second : Attribute) :
    pushed [.push first, .copy, .push second, .swap] .current = [first] ∧
      pushed [.push first, .copy, .push second, .swap] .other = [first, second] := ⟨rfl, rfl⟩

end Desk

/-- The list on a side, when the moves are made on two empty lists, one after another. -/
def AttributeDesk.reached (moves : List AttributeMove) (side : Desk.Side) : AttributeList :=
  (empty.moveAll moves).list side

namespace AttributeList

variable {list : AttributeList} {pushed : List Attribute} {attr : Attribute}

/-! ## Offers -/

/-- **A full list** hands every attribute back: `list.offer attr = (list, some attr)`. -/
theorem offer_of_full (h : list.isFull = true) (attr : Attribute) :
    list.offer attr = (list, some attr) := by
  rw [offer, push_eq_error_iff.mpr ⟨h, rfl⟩]

/-- A list that is not full accepts every attribute, at its end. -/
theorem offer_of_room (h : list.isFull = false) (attr : Attribute) :
    ∃ longer, list.offer attr = (longer, none) ∧ longer.items = list.items ++ [attr] := by
  unfold offer
  cases hpush : list.push attr with
  | ok longer => exact ⟨longer, rfl, items_push hpush⟩
  | error refused =>
    have hfull := (push_eq_error_iff.mp hpush).1
    rw [h] at hfull
    cases hfull

/-! ## Kept attributes -/

/-- **A list keeps the first pushes** that there is room for: `pushed.take capacity`. -/
def Keeps (list : AttributeList) (pushed : List Attribute) : Prop :=
  list.items = pushed.take capacity

namespace Keeps

theorem length_eq (h : list.Keeps pushed) : list.length = min capacity pushed.length := by
  rw [length, h, List.length_take]

/-- A list is full exactly when there were enough pushes: `capacity ≤ pushed.length`. -/
theorem isFull_iff (h : list.Keeps pushed) : list.isFull = true ↔ capacity ≤ pushed.length := by
  rw [isFull, decide_eq_true_iff, h.length_eq]
  omega

/-- **One push more**, whether it is accepted or not: `pushed ++ [attr]` begins with the same pushes
once there are `capacity` of them. -/
theorem offer (h : list.Keeps pushed) (attr : Attribute) :
    (list.offer attr).1.Keeps (pushed ++ [attr]) := by
  cases hfull : list.isFull with
  | true =>
    have hlength := h.isFull_iff.mp hfull
    rw [offer_of_full hfull, Keeps, List.take_append_of_le_length hlength]
    exact h
  | false =>
    have hlength : pushed.length < capacity := by
      rw [← Nat.not_le, ← h.isFull_iff, hfull]
      exact Bool.false_ne_true
    obtain ⟨longer, hoffer, hitems⟩ := offer_of_room hfull attr
    rw [hoffer, Keeps, hitems, h, List.take_of_length_le (Nat.le_of_lt hlength),
      List.take_of_length_le (by rw [List.length_append]; exact hlength)]

/-- **A list on a desk keeps the first pushes** that led to it, by induction on the moves from the
last one back: `(AttributeDesk.reached moves side).items = (Desk.pushed moves side).take
capacity`. -/
theorem reached (moves : List AttributeMove) (side : Desk.Side) :
    (AttributeDesk.reached moves side).Keeps (Desk.pushed moves side) := by
  induction moves using List.reverseRecOn generalizing side with
  | nil => cases side <;> rfl
  | append_singleton moves move ih =>
    rw [AttributeDesk.reached, AttributeDesk.moveAll, Desk.moveAll_concat, Desk.list_move,
      Desk.pushed_concat]
    have hbefore := ih (Desk.sideBefore move side)
    cases Desk.pushedBy? move side with
    | none =>
      rw [Option.toList_none, List.append_nil]
      exact hbefore
    | some attr => exact hbefore.offer attr

end Keeps

/-- **All that follows for a list** from the pushes that led to it: what it has, when it is full,
what it does with one attribute more, and what `get?` finds. -/
structure Kept (list : AttributeList) (pushed : List Attribute) : Prop where
  /-- It has the first ten attributes that were pushed, in their order. -/
  items_eq : list.items = pushed.take 10
  /-- They are never more than ten. -/
  length_le : list.length ≤ 10
  /-- It is full exactly when at least ten were pushed. -/
  isFull_iff : list.isFull = true ↔ 10 ≤ pushed.length
  /-- A full list hands the next attribute back, and stays as it is. -/
  offer_of_full : list.isFull = true → ∀ attr, list.offer attr = (list, some attr)
  /-- Any other list accepts it. -/
  offer_of_room : list.isFull = false → ∀ attr,
    ∃ longer, list.offer attr = (longer, none) ∧ longer.items = list.items ++ [attr]
  /-- What is found under a name is the first attribute of that name that was kept. -/
  get?_eq_some_iff : ∀ name attr, list.get? name = some attr ↔
    attr.name = name ∧ ∃ front back, pushed.take 10 = front ++ attr :: back ∧
      ∀ other ∈ front, other.name ≠ name
  /-- Nothing is found exactly when none was kept. -/
  get?_eq_none_iff : ∀ name, list.get? name = none ↔ ∀ attr ∈ pushed.take 10, attr.name ≠ name

/-- A list that keeps the first pushes has all these properties: each of them is about
`pushed.take 10`. -/
theorem Keeps.kept (h : list.Keeps pushed) : list.Kept pushed where
  items_eq := h
  length_le := list.length_le
  isFull_iff := h.isFull_iff
  offer_of_full := AttributeList.offer_of_full
  offer_of_room := AttributeList.offer_of_room
  get?_eq_some_iff := by
    intro name attr
    rw [AttributeList.get?_eq_some_iff, h]
    rfl
  get?_eq_none_iff := by
    intro name
    rw [AttributeList.get?_eq_none_iff, h]
    rfl

end AttributeList

end TagWalk
