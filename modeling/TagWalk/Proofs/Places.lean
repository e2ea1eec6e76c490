import Mathlib.Order.Bounds.Basic
import TagWalk.Proofs.Checked

/-! # Least places

What a cursor looks for stands at a set of places, and the answer of a search is told here by that set
alone: it is the least place at or after the start, and there is no answer when there is no place.

A needle stands at a place when as many bytes as it has are there and are those of the needle, so a
needle that begins inside an earlier attempt is not missed, and one that ends with the document is
found. The empty needle stands everywhere, also past the end of the document, where there is no slice.

* **`Cursor.placesOfByte`**, **`Cursor.placesOf`** — where a byte, and a needle, stands.
* **`Cursor.findByteFrom?_eq_some_iff_isLeast`**, **`Cursor.findFrom?_eq_some_iff_isLeast`** — a search
  answers with the least place.
* **`Cursor.search_isLeast`** — both searches, from any start and without a sum that is too large. -/

namespace TagWalk

/-- A least place from `start` on, without sets: something is there, and nowhere between `start` and
`offset`. -/
theorem isLeast_place_iff {place : Nat → Prop} {start offset : Nat} :
    IsLeast {i | start ≤ i ∧ place i} offset ↔
      start ≤ offset ∧ place offset ∧ ∀ i, start ≤ i → i < offset → ¬ place i := by
  constructor
  · rintro ⟨⟨hstart, hplace⟩, hlower⟩
    refine ⟨hstart, hplace, ?_⟩
    intro i hi hlt hother
    have hle : offset ≤ i := hlower ⟨hi, hother⟩
    omega
  · rintro ⟨hstart, hplace, hfirst⟩
    refine ⟨⟨hstart, hplace⟩, ?_⟩
    rintro i ⟨hi, hother⟩
    by_contra hlt
    exact hfirst i hi (Nat.not_le.mp hlt) hother

namespace Cursor

variable {cursor : Cursor} {start offset : Nat} {byte : UInt8} {needle : Bytes}

/-! ## Places -/

/-- **The places of a byte** at or after `start`: those `i` with `cursor.byteAt? i = some byte`. -/
def placesOfByte (cursor : Cursor) (start : Nat) (byte : UInt8) : Set Nat :=
  {i | start ≤ i ∧ cursor.byteAt? i = some byte}

/-- **The places of a needle** at or after `start`: those `i` where the slice from `i` to
`i + needle.length` is in range, and is the needle. -/
def placesOf (cursor : Cursor) (start : Nat) (needle : Bytes) : Set Nat :=
  {i | start ≤ i ∧ cursor.slice? i (i + needle.length) = some needle}

/-- A slice that exists has its bounds inside the document, `start ≤ stop ≤
cursor.document.length`. -/
theorem slice?_eq_some_iff {stop : Nat} {bytes : Bytes} :
    cursor.slice? start stop = some bytes ↔
      start ≤ stop ∧ stop ≤ cursor.document.length ∧ cursor.document.slice start stop = bytes := by
  unfold slice?
  split
  · rename_i hrange
    simp [hrange]
  · rename_i hrange
    simp only [reduceCtorEq, false_iff]
    rintro ⟨horder, hstop, -⟩
    exact hrange ⟨horder, hstop⟩

/-- Where a needle stands is a matter of the document alone: two cursors in one document have the
same `placesOf start needle`. -/
theorem placesOf_of_document {other : Cursor} (h : other.document = cursor.document) (start : Nat)
    (needle : Bytes) : other.placesOf start needle = cursor.placesOf start needle := by
  unfold placesOf slice?
  rw [h]

/-- **A needle that is not empty** is a slice of the document exactly where the rest of the document
begins with it, `needle <+: cursor.tailFrom i`. -/
theorem slice?_eq_needle_iff (hneedle : needle ≠ []) (i : Nat) :
    cursor.slice? i (i + needle.length) = some needle ↔ needle <+: cursor.tailFrom i := by
  rw [slice?_eq_some_iff, Bytes.slice, Nat.add_sub_cancel_left, tailFrom]
  constructor
  · rintro ⟨-, -, htake⟩
    rw [← htake]
    exact List.take_prefix _ _
  · intro hfront
    have hpositive := List.length_pos_iff.mpr hneedle
    have hfits := hfront.length_le
    rw [List.length_drop] at hfits
    exact ⟨Nat.le_add_right _ _, by omega, (List.prefix_iff_eq_take.mp hfront).symm⟩

/-! ## Searches -/

/-- **A byte is found at its least place**: `IsLeast (cursor.placesOfByte start byte) offset`. -/
theorem findByteFrom?_eq_some_iff_isLeast :
    cursor.findByteFrom? start byte = some offset ↔
      IsLeast (cursor.placesOfByte start byte) offset := by
  rw [findByteFrom?_eq_some_iff, placesOfByte, isLeast_place_iff]
  rfl

/-- A byte is not found exactly when it has no place: `cursor.placesOfByte start byte = ∅`. -/
theorem findByteFrom?_eq_none_iff_empty :
    cursor.findByteFrom? start byte = none ↔ cursor.placesOfByte start byte = ∅ := by
  rw [findByteFrom?_eq_none_iff, Set.eq_empty_iff_forall_notMem]
  apply forall_congr'
  intro i
  exact not_and.symm

/-- **A needle is found at its least place**: `IsLeast (cursor.placesOf start needle) offset`. The
empty needle is left out, since it is found even where there is no slice. -/
theorem findFrom?_eq_some_iff_isLeast (hneedle : needle ≠ []) :
    cursor.findFrom? start needle = some offset ↔
      IsLeast (cursor.placesOf start needle) offset := by
  rw [findFrom?_eq_some_iff, placesOf, isLeast_place_iff]
  simp only [slice?_eq_needle_iff hneedle]

/-- A needle is not found exactly when it has no place: `cursor.placesOf start needle = ∅`. -/
theorem findFrom?_eq_none_iff_empty (hneedle : needle ≠ []) :
    cursor.findFrom? start needle = none ↔ cursor.placesOf start needle = ∅ := by
  rw [findFrom?_eq_none_iff, Set.eq_empty_iff_forall_notMem]
  apply forall_congr'
  intro i
  rw [← slice?_eq_needle_iff hneedle]
  exact not_and.symm

/-- The empty needle is found at once, wherever the search starts: at `start` itself. -/
@[simp] theorem findFrom?_empty (cursor : Cursor) (start : Nat) :
    cursor.findFrom? start [] = some start := by
  simp [findFrom?]

/-- A needle of one byte, `[byte]`, has the places of the byte. -/
theorem placesOf_singleton (cursor : Cursor) (start : Nat) (byte : UInt8) :
    cursor.placesOf start [byte] = cursor.placesOfByte start byte := by
  ext i
  apply and_congr_right
  intro _
  rw [slice?_eq_needle_iff (List.cons_ne_nil _ _), tailFrom, byteAt?, ← List.head?_drop]
  cases cursor.document.drop i with
  | nil => simp
  | cons first rest => simp [eq_comm]

/-- **The search for a byte** is the search for the needle `[byte]`, since both answer with the
least of the same places. -/
theorem findByteFrom?_eq_findFrom? (cursor : Cursor) (start : Nat) (byte : UInt8) :
    cursor.findByteFrom? start byte = cursor.findFrom? start [byte] := by
  apply Option.ext
  intro offset
  rw [findByteFrom?_eq_some_iff_isLeast, findFrom?_eq_some_iff_isLeast (List.cons_ne_nil _ _),
    placesOf_singleton]

end Cursor

/-- **The search for any needle** starts at a word, and its answer is a word: where
`document.IsShort` and `start ≤ Cursor.maxOffset`, the sum of `start` and the offset behind it is
not too large. -/
theorem Checked.findFrom_eq_of_start {cursor : Cursor} (hshort : cursor.document.IsShort) {start : Nat}
    (hstart : start ≤ Cursor.maxOffset) (needle : Bytes) :
    findFrom cursor start needle = some (cursor.findFrom? start needle) := by
  by_cases hneedle : needle = []
  · subst hneedle
    rw [Cursor.findFrom?_empty, findFrom, Bytes.indexOf?_empty]
    have hsum : add start 0 = some start := add_eq hstart
    simp [hsum]
  · exact findFrom_eq hshort start hneedle

/-- **The searches of a cursor answer with the first match**, counted from the front of the
document, from any start on. A byte is found at the `IsLeast` of `cursor.placesOfByte start byte`, a
needle that is not empty at that of `cursor.placesOf start needle`, and neither is found exactly
when there is no place; the empty needle is found at `start` itself, even past the end. The needle
`[byte]` is found where the byte is. And where the start is a word, no sum of the start and a match
behind it is too large: the `Checked` searches answer as well. -/
theorem Cursor.search_isLeast (cursor : Cursor) (start : Nat) (byte : UInt8) (needle : Bytes) :
    (∀ offset, cursor.findByteFrom? start byte = some offset ↔
        IsLeast (cursor.placesOfByte start byte) offset) ∧
      (cursor.findByteFrom? start byte = none ↔ cursor.placesOfByte start byte = ∅) ∧
      (needle ≠ [] →
        (∀ offset, cursor.findFrom? start needle = some offset ↔
          IsLeast (cursor.placesOf start needle) offset) ∧
        (cursor.findFrom? start needle = none ↔ cursor.placesOf start needle = ∅)) ∧
      cursor.findFrom? start [] = some start ∧
      cursor.findByteFrom? start byte = cursor.findFrom? start [byte] ∧
      (cursor.document.IsShort → start ≤ maxOffset →
        Checked.findByteFrom cursor start byte = some (cursor.findByteFrom? start byte) ∧
        Checked.findFrom cursor start needle = some (cursor.findFrom? start needle)) := by
  refine ⟨?_, findByteFrom?_eq_none_iff_empty, ?_, findFrom?_empty cursor start,
    findByteFrom?_eq_findFrom? cursor start byte, ?_⟩
  · intro offset
    exact findByteFrom?_eq_some_iff_isLeast
  · intro hneedle
    refine ⟨?_, findFrom?_eq_none_iff_empty hneedle⟩
    intro offset
    exact findFrom?_eq_some_iff_isLeast hneedle
  · intro hshort hstart
    exact ⟨Checked.findByteFrom_eq hshort start byte,
      Checked.findFrom_eq_of_start hshort hstart needle⟩

/-- A cursor at the front of `xaaab`. -/
def cursorAtRun : Cursor := .ofDocument [0x78, 0x61, 0x61, 0x61, 0x62]

/-- In `xaaab`, the first attempt at `aab` fails at its third byte, and the needle begins inside it. -/
theorem Cursor.search_isLeast_cursorAtRun :
    [0x61, 0x61, 0x62] ≠ ([] : Bytes) ∧ cursorAtRun.document.IsShort ∧ 1 ≤ maxOffset ∧
      IsLeast (cursorAtRun.placesOf 1 [0x61, 0x61, 0x62]) 2 ∧
      Checked.findFrom cursorAtRun 1 [0x61, 0x61, 0x62] = some (some 2) ∧
      cursorAtRun.placesOf 3 [0x61, 0x61, 0x62] = ∅ := by
  have hneedle : [0x61, 0x61, 0x62] ≠ ([] : Bytes) := by decide
  have hshort : cursorAtRun.document.IsShort := by
    show 5 < 0x8000000000000000
    decide
  have hstart : 1 ≤ maxOffset := by decide
  have hfound : cursorAtRun.findFrom? 1 [0x61, 0x61, 0x62] = some 2 := by decide
  have hnone : cursorAtRun.findFrom? 3 [0x61, 0x61, 0x62] = none := by decide
  obtain ⟨-, -, hplaces, -, -, hchecked⟩ := search_isLeast cursorAtRun 1 0x61 [0x61, 0x61, 0x62]
  obtain ⟨-, -, hafter, -⟩ := search_isLeast cursorAtRun 3 0x61 [0x61, 0x61, 0x62]
  refine ⟨hneedle, hshort, hstart, ((hplaces hneedle).1 2).mp hfound, ?_, (hafter hneedle).2.mp hnone⟩
  rw [(hchecked hshort hstart).2, hfound]

end TagWalk
