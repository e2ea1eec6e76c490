import TagWalk.Bytes.Search

/-! # Cursors

A **cursor** is a place in a document. Moves are clamped to the end of the document, so the place is
always inside it or just past its last byte; searches leave the cursor alone and answer with offsets
from the front of the document, so a place can be remembered and compared. -/

namespace TagWalk

/-- A document with a place in it. The bound `position_le` is a field, so no cursor stands past the
end. -/
structure Cursor where
  /-- The whole document. -/
  document : Bytes
  /-- Offset of the next byte. -/
  position : Nat
  /-- The place is in the document or at its end. -/
  position_le : position ≤ document.length
  deriving DecidableEq

namespace Cursor

/-- The greatest offset, `2 ^ 64 - 1`: offsets are words of 64 bits. -/
def maxOffset : Nat := 0xFFFFFFFFFFFFFFFF

/-- The cursor at the front of a document. -/
def ofDocument (document : Bytes) : Cursor := ⟨document, 0, Nat.zero_le _⟩

/-- Move to an offset, or to the end of the document when it lies past it:
`min position cursor.document.length`. -/
def setPosition (cursor : Cursor) (position : Nat) : Cursor :=
  ⟨cursor.document, min position cursor.document.length, Nat.min_le_right _ _⟩

/-- Move forward by a number of bytes, at most to the end of the document. A sum above `maxOffset`
counts as `maxOffset`, so adding never wraps around. -/
def advance (cursor : Cursor) (count : Nat) : Cursor :=
  cursor.setPosition (min (cursor.position + count) maxOffset)

/-- Whether no byte is left. -/
def isEof (cursor : Cursor) : Bool := decide (cursor.document.length ≤ cursor.position)

/-- The bytes from an offset to the end of the document, none when it lies past it. -/
def tailFrom (cursor : Cursor) (start : Nat) : Bytes := cursor.document.drop start

/-- The bytes that are left. -/
def remaining (cursor : Cursor) : Bytes := cursor.tailFrom cursor.position

/-- The number of bytes that are left. -/
def remainingLength (cursor : Cursor) : Nat := cursor.document.length - cursor.position

/-- The bytes between two offsets, when `start ≤ stop` and `stop` is inside the document or at its
end. -/
def slice? (cursor : Cursor) (start stop : Nat) : Option Bytes :=
  if start ≤ stop ∧ stop ≤ cursor.document.length then some (cursor.document.slice start stop)
  else none

/-- The byte at an offset. -/
def byteAt? (cursor : Cursor) (offset : Nat) : Option UInt8 := cursor.document[offset]?

/-- Offset of the first occurrence of a byte at or after `start`, counted from the front of the
document. -/
def findByteFrom? (cursor : Cursor) (start : Nat) (byte : UInt8) : Option Nat :=
  ((cursor.tailFrom start).indexOfByte? byte).map (start + ·)

/-- Offset of the first occurrence of a byte at or after the cursor's own place. -/
def findByte? (cursor : Cursor) (byte : UInt8) : Option Nat :=
  cursor.findByteFrom? cursor.position byte

/-- Offset of the first occurrence of a needle at or after `start`. The empty needle occurs at
`start` itself, wherever that is. -/
def findFrom? (cursor : Cursor) (start : Nat) (needle : Bytes) : Option Nat :=
  ((cursor.tailFrom start).indexOf? needle).map (start + ·)

@[simp] theorem document_ofDocument (document : Bytes) : (ofDocument document).document = document :=
  rfl

@[simp] theorem position_ofDocument (document : Bytes) : (ofDocument document).position = 0 := rfl

@[simp] theorem document_setPosition (cursor : Cursor) (position : Nat) :
    (cursor.setPosition position).document = cursor.document := rfl

@[simp] theorem position_setPosition (cursor : Cursor) (position : Nat) :
    (cursor.setPosition position).position = min position cursor.document.length := rfl

@[simp] theorem document_advance (cursor : Cursor) (count : Nat) :
    (cursor.advance count).document = cursor.document := rfl

/-- A cursor is known by its document and its place: the bound `position_le` is a proof, and any two
are equal. -/
theorem ext_of_position {first second : Cursor} (hdocument : first.document = second.document)
    (hposition : first.position = second.position) : first = second := by
  obtain ⟨document, position, _⟩ := first
  obtain ⟨document', position', _⟩ := second
  cases hdocument
  cases hposition
  rfl

/-- The cursor is at the end exactly when nothing is left: `cursor.remaining = []`. -/
theorem isEof_iff (cursor : Cursor) : cursor.isEof = true ↔ cursor.remaining = [] := by
  simp [isEof, remaining, tailFrom]

@[simp] theorem length_remaining (cursor : Cursor) :
    cursor.remaining.length = cursor.remainingLength := by
  simp [remaining, tailFrom, remainingLength]

/-- A byte is found at or after `start` and where it stands: `cursor.document[offset]? = some byte`.
So the offset lies inside the document. -/
theorem findByteFrom?_eq_some {cursor : Cursor} {start offset : Nat} {byte : UInt8}
    (h : cursor.findByteFrom? start byte = some offset) :
    start ≤ offset ∧ cursor.document[offset]? = some byte := by
  obtain ⟨i, hi, rfl⟩ := Option.map_eq_some_iff.mp h
  obtain ⟨hlt, heq, -⟩ := List.findIdx?_eq_some_iff_getElem.mp hi
  refine ⟨Nat.le_add_right _ _, ?_⟩
  rw [← List.getElem?_drop]
  exact (List.getElem?_eq_getElem hlt).trans (congrArg some (by simpa using heq))

/-- A byte that is found lies inside the document. -/
theorem findByteFrom?_lt_length {cursor : Cursor} {start offset : Nat} {byte : UInt8}
    (h : cursor.findByteFrom? start byte = some offset) : offset < cursor.document.length :=
  (List.getElem?_eq_some_iff.mp (findByteFrom?_eq_some h).2).1

end Cursor

end TagWalk
