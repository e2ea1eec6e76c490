import Mathlib.Algebra.GroupWithZero.Nat
import TagWalk.Proofs.Checked

/-! # Moves on words

The offsets that a cursor is moved by are words of 64 bits, and a sum of two words wraps around when it
is too large. Here a place is nothing but a word: nothing promises that it lies in the document, the
bytes that are left are a slice that may be impossible, and their number is a difference that may be
negative. Moves keep such a place in range all the same, whatever words they are made by, so that it is
the place of a `Cursor` that makes the same moves.

* **`WordCursor.addUpTo`** — the sum of two words, found out to be too large by its wrapping around.
* **`WordCursor.StandsAt`** — a word cursor at the place of a cursor; every move keeps it there
  (**`WordCursor.StandsAt.move`**, **`WordCursor.StandsAt.moveAll`**).
* **`Cursor.position_moveAll_advance`** — where moves forward end.
* **`WordCursor.inRange_of_moves`** — what holds after any moves. -/

namespace TagWalk

/-- A move of a cursor by a word. -/
inductive CursorMove
  /-- Move to an offset. -/
  | setPosition (position : UInt64)
  /-- Move forward by a number of bytes. -/
  | advance (count : UInt64)
  deriving DecidableEq

namespace Cursor

/-- The cursor after a move; the word is read as a number, `position.toNat` or `count.toNat`. -/
def move (cursor : Cursor) : CursorMove → Cursor
  | .setPosition position => cursor.setPosition position.toNat
  | .advance count => cursor.advance count.toNat

/-- The cursor after a sequence of moves, from the left: `moves.foldl move cursor`. -/
def moveAll (cursor : Cursor) (moves : List CursorMove) : Cursor := moves.foldl move cursor

@[simp] theorem moveAll_nil (cursor : Cursor) : cursor.moveAll [] = cursor := rfl

@[simp] theorem moveAll_cons (cursor : Cursor) (move : CursorMove) (moves : List CursorMove) :
    cursor.moveAll (move :: moves) = (cursor.move move).moveAll moves := rfl

@[simp] theorem document_move (cursor : Cursor) (move : CursorMove) :
    (cursor.move move).document = cursor.document := by
  cases move <;> rfl

@[simp] theorem document_moveAll (cursor : Cursor) (moves : List CursorMove) :
    (cursor.moveAll moves).document = cursor.document := by
  induction moves generalizing cursor with
  | nil => rfl
  | cons move moves ih => rw [moveAll_cons, ih, document_move]

/-- Where a word counts the bytes of the document, a sum that is too large lies past its end anyway:
the place is `min (cursor.position + count) cursor.document.length`, and `maxOffset` does not
show. -/
theorem position_advance {cursor : Cursor} (hlength : cursor.document.length ≤ maxOffset) (count : Nat) :
    (cursor.advance count).position = min (cursor.position + count) cursor.document.length := by
  rw [advance, position_setPosition]
  omega

/-- **Moves forward add up**: from `cursor.position` they end behind as many bytes as
`(counts.map UInt64.toNat).sum`, or at the end of the document when that lies past it. -/
theorem position_moveAll_advance {cursor : Cursor} (hlength : cursor.document.length ≤ maxOffset)
    (counts : List UInt64) :
    (cursor.moveAll (counts.map .advance)).position =
      min (cursor.position + (counts.map UInt64.toNat).sum) cursor.document.length := by
  induction counts generalizing cursor with
  | nil =>
    have hle := cursor.position_le
    simp only [List.map_nil, moveAll_nil, List.sum_nil]
    omega
  | cons count counts ih =>
    have hadvance := position_advance hlength count.toNat
    have hmore := @ih (cursor.advance count.toNat) hlength
    rw [hadvance, document_advance] at hmore
    simp only [List.map_cons, moveAll_cons, List.sum_cons]
    rw [show cursor.move (.advance count) = cursor.advance count.toNat from rfl, hmore]
    omega

end Cursor

/-- A document with a word for a place, which may lie anywhere: nothing here says that `position` is
at most the number of bytes. -/
structure WordCursor where
  /-- The whole document. -/
  document : Bytes
  /-- Offset of the next byte, if there is one. -/
  position : UInt64

namespace WordCursor

/-- The cursor at the front of a document. -/
def ofDocument (document : Bytes) : WordCursor := ⟨document, 0⟩

/-- The number of bytes of the document, as a word: `UInt64.ofNat cursor.document.length`. -/
def length (cursor : WordCursor) : UInt64 := .ofNat cursor.document.length

/-- **The sum of two words**, or the greatest word when the sum is too large: then it wraps around,
and `first + second < first`. -/
def addUpTo (first second : UInt64) : UInt64 :=
  if first + second < first then .ofNat Cursor.maxOffset else first + second

/-- Move to an offset, or to the end of the document when it lies past it: the smaller of `position`
and `cursor.length`. -/
def setPosition (cursor : WordCursor) (position : UInt64) : WordCursor :=
  ⟨cursor.document, if position ≤ cursor.length then position else cursor.length⟩

/-- Move forward by a number of bytes, at most to the end of the document: to
`addUpTo cursor.position count`. -/
def advance (cursor : WordCursor) (count : UInt64) : WordCursor :=
  cursor.setPosition (addUpTo cursor.position count)

/-- Whether no byte is left. -/
def isEof (cursor : WordCursor) : Bool := decide (cursor.length ≤ cursor.position)

/-- The bytes that are left, when the place is in range: the slice `document[position..]`, and stuck
where there is none. -/
def remaining (cursor : WordCursor) : Checked Bytes :=
  Checked.slice cursor.document cursor.position.toNat cursor.document.length

/-- The number of bytes that are left, `document.length - position`, when it is not negative. -/
def remainingLength (cursor : WordCursor) : Checked Nat :=
  Checked.sub cursor.document.length cursor.position.toNat

/-- The bytes from an offset to the end of the document, none when it is not in range. -/
def tailFrom (cursor : WordCursor) (start : UInt64) : Bytes :=
  (Checked.slice cursor.document start.toNat cursor.document.length).getD []

/-- The cursor after a move. -/
def move (cursor : WordCursor) : CursorMove → WordCursor
  | .setPosition position => cursor.setPosition position
  | .advance count => cursor.advance count

/-- The cursor after a sequence of moves. -/
def moveAll (cursor : WordCursor) (moves : List CursorMove) : WordCursor := moves.foldl move cursor

/-- **The sum of two words** is the sum of their numbers, at most the greatest word:
`min (first + second) maxOffset`. -/
theorem toNat_addUpTo (first second : UInt64) :
    (addUpTo first second).toNat = min (first.toNat + second.toNat) Cursor.maxOffset := by
  have hfirst := first.toNat_lt
  have hsecond := second.toNat_lt
  have hmax : (UInt64.ofNat Cursor.maxOffset).toNat = Cursor.maxOffset := by decide
  unfold addUpTo
  rw [Cursor.maxOffset] at *
  split
  · -- a sum that wraps is less than either of the two words, and only such a sum is
    rename_i hwraps
    rw [UInt64.lt_iff_toNat_lt, UInt64.toNat_add] at hwraps
    omega
  · rename_i hfits
    rw [UInt64.lt_iff_toNat_lt, UInt64.toNat_add] at hfits
    rw [UInt64.toNat_add]
    omega

/-- **A word cursor at the place of a cursor**: the same document, and
`words.position.toNat = cursor.position`. -/
structure StandsAt (words : WordCursor) (cursor : Cursor) : Prop where
  /-- In the same document. -/
  document_eq : words.document = cursor.document
  /-- At the same offset. -/
  position_eq : words.position.toNat = cursor.position

namespace StandsAt

variable {words : WordCursor} {cursor : Cursor}

/-- The number of bytes is the word that counts them. -/
theorem toNat_length (h : words.StandsAt cursor) (hlength : cursor.document.length ≤ Cursor.maxOffset) :
    words.length.toNat = cursor.document.length := by
  rw [Cursor.maxOffset] at hlength
  rw [length, h.document_eq, UInt64.toNat_ofNat']
  omega

theorem setPosition (h : words.StandsAt cursor) (hlength : cursor.document.length ≤ Cursor.maxOffset)
    (position : UInt64) :
    (words.setPosition position).StandsAt (cursor.setPosition position.toNat) := by
  refine ⟨h.document_eq, ?_⟩
  have hcount := h.toNat_length hlength
  rw [Cursor.position_setPosition, WordCursor.setPosition]
  dsimp only
  split
  · rename_i hle
    rw [UInt64.le_iff_toNat_le, hcount] at hle
    omega
  · rename_i hlt
    rw [UInt64.le_iff_toNat_le, hcount] at hlt
    omega

theorem advance (h : words.StandsAt cursor) (hlength : cursor.document.length ≤ Cursor.maxOffset)
    (count : UInt64) : (words.advance count).StandsAt (cursor.advance count.toNat) := by
  have hset := h.setPosition hlength (addUpTo words.position count)
  rw [toNat_addUpTo, h.position_eq] at hset
  exact hset

/-- **Every move** leads both to the same place, whatever its word:
`(words.move move).StandsAt (cursor.move move)`. -/
theorem move (h : words.StandsAt cursor) (hlength : cursor.document.length ≤ Cursor.maxOffset)
    (move : CursorMove) : (words.move move).StandsAt (cursor.move move) := by
  cases move with
  | setPosition position => exact h.setPosition hlength position
  | advance count => exact h.advance hlength count

/-- So does every sequence of moves, one move after the other:
`(words.moveAll moves).StandsAt (cursor.moveAll moves)`. -/
theorem moveAll (h : words.StandsAt cursor) (hlength : cursor.document.length ≤ Cursor.maxOffset)
    (moves : List CursorMove) : (words.moveAll moves).StandsAt (cursor.moveAll moves) := by
  induction moves generalizing words cursor with
  | nil => exact h
  | cons move moves ih => exact ih (h.move hlength move) (by rwa [Cursor.document_move])

end StandsAt

/-- **A place in range**: what is asked of a word cursor is possible there, and comes to what a cursor
at the same place tells. -/
structure InRange (words : WordCursor) (cursor : Cursor) : Prop where
  /-- Both are at the same place. -/
  standsAt : words.StandsAt cursor
  /-- It lies in the document or at its end. -/
  position_le : words.position.toNat ≤ cursor.document.length
  /-- The number of bytes that are left is not negative. -/
  remainingLength_eq : words.remainingLength = some cursor.remainingLength
  /-- With the bytes in front of the place, they are all bytes. -/
  position_add : words.position.toNat + cursor.remainingLength = cursor.document.length
  /-- The bytes that are left are a slice. -/
  remaining_eq : words.remaining = some cursor.remaining
  /-- They are the bytes from the place on. -/
  tailFrom_position : words.tailFrom words.position = cursor.remaining
  /-- The cursor is at the end exactly when there are none. -/
  isEof_iff : words.isEof = true ↔ cursor.remaining = []
  /-- Both agree on that. -/
  isEof_eq : words.isEof = cursor.isEof

/-- The place of a cursor is in range. -/
theorem StandsAt.inRange {words : WordCursor} {cursor : Cursor} (h : words.StandsAt cursor)
    (hlength : cursor.document.length ≤ Cursor.maxOffset) : words.InRange cursor := by
  have hle := cursor.position_le
  have hremaining : words.remaining = some cursor.remaining := by
    rw [remaining, h.document_eq, h.position_eq, Checked.slice_eq hle (Nat.le_refl _),
      Bytes.slice_of_length_le _ _ (Nat.le_refl _)]
    rfl
  have htail : words.tailFrom words.position = words.remaining.getD [] := rfl
  have heof : words.isEof = cursor.isEof := by
    rw [isEof, Cursor.isEof, decide_eq_decide, UInt64.le_iff_toNat_le, h.toNat_length hlength,
      h.position_eq]
  refine ⟨h, ?_, ?_, ?_, hremaining, ?_, ?_, heof⟩
  · rw [h.position_eq]
    exact hle
  · rw [remainingLength, h.document_eq, h.position_eq, Checked.sub_eq hle]
    rfl
  · rw [h.position_eq]
    exact Nat.add_sub_cancel' hle
  · rw [htail, hremaining]
    rfl
  · rw [heof]
    exact cursor.isEof_iff

/-- **A cursor stays in range under any moves**, by any words. Wherever
`words = (ofDocument document).moveAll moves` has come from the front of a document, its place lies
in the document or at its end, so that `words.remaining` is a slice of the document and
`words.remainingLength` is not negative. From there, moves forward add up: they end at `min
(position + (counts.map UInt64.toNat).sum) document.length`, also when no word is large enough for
the sum. -/
theorem inRange_of_moves {document : Bytes} (hlength : document.length ≤ Cursor.maxOffset)
    (moves : List CursorMove) :
    ((ofDocument document).moveAll moves).InRange ((Cursor.ofDocument document).moveAll moves) ∧
      ∀ counts : List UInt64,
        (((ofDocument document).moveAll moves).moveAll (counts.map .advance)).StandsAt
            (((Cursor.ofDocument document).moveAll moves).moveAll (counts.map .advance)) ∧
          (((Cursor.ofDocument document).moveAll moves).moveAll (counts.map .advance)).position =
            min (((Cursor.ofDocument document).moveAll moves).position +
              (counts.map UInt64.toNat).sum) document.length := by
  have hfront : (ofDocument document).StandsAt (.ofDocument document) := ⟨rfl, rfl⟩
  -- the word cursor is where the cursor is, and a cursor carries its bound with it
  have hreached := hfront.moveAll hlength moves
  have hrange : ((Cursor.ofDocument document).moveAll moves).document.length ≤ Cursor.maxOffset := by
    rwa [Cursor.document_moveAll]
  refine ⟨hreached.inRange hrange, ?_⟩
  intro counts
  refine ⟨hreached.moveAll hrange _, ?_⟩
  rw [Cursor.position_moveAll_advance hrange, Cursor.document_moveAll, Cursor.document_ofDocument]

/-- Behind the first byte of `abc`, two moves forward whose sum is too large for a word end at the end
of the document, and a move to the greatest word does. -/
theorem inRange_of_moves_greatest :
    ([0x61, 0x62, 0x63] : Bytes).length ≤ Cursor.maxOffset ∧
      ((ofDocument [0x61, 0x62, 0x63]).moveAll
        [.advance 1, .advance 0xFFFFFFFFFFFFFFFF, .advance 0xFFFFFFFFFFFFFFFF]).position.toNat = 3 ∧
      ((ofDocument [0x61, 0x62, 0x63]).moveAll [.setPosition 0xFFFFFFFFFFFFFFFF]).remaining =
        some [] := by
  have hlength : ([0x61, 0x62, 0x63] : Bytes).length ≤ Cursor.maxOffset := by decide
  obtain ⟨-, hcounts⟩ := inRange_of_moves hlength [.advance 1]
  obtain ⟨hrange, -⟩ := inRange_of_moves hlength [.setPosition 0xFFFFFFFFFFFFFFFF]
  refine ⟨hlength, ?_, ?_⟩
  · obtain ⟨hstands, hend⟩ := hcounts [0xFFFFFFFFFFFFFFFF, 0xFFFFFFFFFFFFFFFF]
    exact hstands.position_eq.trans hend
  · rw [hrange.remaining_eq]
    rfl

end WordCursor

end TagWalk
