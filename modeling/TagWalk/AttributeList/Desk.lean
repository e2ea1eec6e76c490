import TagWalk.AttributeList.Basic

/-! # Two attribute lists side by side

A **desk** holds a current list and another one. Attributes are pushed onto the current list, the
current list can be copied over the other one, and the two can change places. A desk knows of its lists
only how an attribute is pushed onto them, so that it serves for lists of every kind. -/

namespace TagWalk

/-- Two lists of one kind `ι`, of which one is worked on. -/
structure Desk (ι : Type) where
  /-- The list that is worked on. -/
  current : ι
  /-- The list put aside. -/
  other : ι
  deriving DecidableEq

/-- A change of the two lists. -/
inductive AttributeMove
  /-- Push an attribute onto the current list. -/
  | push (attr : Attribute)
  /-- Put a copy of the current list aside. -/
  | copy
  /-- Let the two lists change places. -/
  | swap
  deriving DecidableEq

namespace Desk

variable {ι : Type}

/-- **The desk after a move**, with the attribute that found no room. `push list attr` gives the
list behind it and, when `attr` is refused, `some attr`; the other two moves refuse nothing. -/
def move (push : ι → Attribute → ι × Option Attribute) (desk : Desk ι) :
    AttributeMove → Desk ι × Option Attribute
  | .push attr =>
      let (current, refused) := push desk.current attr
      (⟨current, desk.other⟩, refused)
  | .copy => (⟨desk.current, desk.current⟩, none)
  | .swap => (⟨desk.other, desk.current⟩, none)

/-- The desk after a sequence of moves, the first one first. What was refused on the way is
forgotten. -/
def moveAll (push : ι → Attribute → ι × Option Attribute) (desk : Desk ι)
    (moves : List AttributeMove) : Desk ι :=
  moves.foldl (fun desk move => (desk.move push move).1) desk

end Desk

/-- **Offer an attribute** to a list: `AttributeList.push` with the list kept as it was, and the
attribute beside it, when that hands the attribute back. -/
def AttributeList.offer (list : AttributeList) (attr : Attribute) : AttributeList × Option Attribute :=
  match list.push attr with
  | .ok pushed => (pushed, none)
  | .error refused => (list, some refused)

/-- Two attribute lists. -/
abbrev AttributeDesk := Desk AttributeList

namespace AttributeDesk

/-- Two empty lists. -/
def empty : AttributeDesk := ⟨.empty, .empty⟩

/-- The desk after a move, with the attribute that found no room. A refused attribute leaves the
lists as they were. -/
def move (desk : AttributeDesk) (move : AttributeMove) : AttributeDesk × Option Attribute :=
  Desk.move AttributeList.offer desk move

/-- The desk after a sequence of moves. -/
def moveAll (desk : AttributeDesk) (moves : List AttributeMove) : AttributeDesk :=
  Desk.moveAll AttributeList.offer desk moves

end AttributeDesk

end TagWalk
