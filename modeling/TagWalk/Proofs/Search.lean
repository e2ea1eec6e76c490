import TagWalk.Tag

/-! # First occurrences

The searches of a cursor answer with the **first** occurrence, and with nothing only when there is
none. Each is described by an equivalence, so that the answer of a search is known from what stands
in the document.

* **`indexOfByte?_eq_some_iff`**, **`indexOf?_eq_some_iff`** — the least offset of a byte, of a
  needle.
* **`findByteFrom?_eq_some_iff`**, **`findFrom?_eq_some_iff`** — the same from any start on;
  **`findByteFrom?_eq_none_iff`**, **`findFrom?_eq_none_iff`** — when there is none.
* **`nextTag_eq_ok_iff`** — the next tag is the first `<` with the first `>` behind it. -/

namespace TagWalk

namespace Bytes

/-- **The first place of a byte**: `bytes[i]? = some byte`, and nowhere before. -/
theorem indexOfByte?_eq_some_iff {bytes : Bytes} {byte : UInt8} {i : Nat} :
    bytes.indexOfByte? byte = some i ↔
      bytes[i]? = some byte ∧ ∀ j < i, bytes[j]? ≠ some byte := by
  rw [indexOfByte?, List.findIdx?_eq_some_iff_getElem]
  constructor
  · rintro ⟨hi, heq, hfirst⟩
    refine ⟨by simpa [List.getElem?_eq_getElem hi] using heq, ?_⟩
    intro j hj hbyte
    obtain ⟨hlt, hget⟩ := List.getElem?_eq_some_iff.mp hbyte
    exact hfirst j hj (by simp [hget])
  · rintro ⟨hbyte, hfirst⟩
    obtain ⟨hi, hget⟩ := List.getElem?_eq_some_iff.mp hbyte
    refine ⟨hi, by simp [hget], ?_⟩
    intro j hj heq
    apply hfirst j hj
    rw [List.getElem?_eq_getElem (Nat.lt_trans hj hi)]
    simpa using heq

/-- A byte has no first place exactly when it does not occur, `byte ∉ bytes`. -/
theorem indexOfByte?_eq_none_iff {bytes : Bytes} {byte : UInt8} :
    bytes.indexOfByte? byte = none ↔ byte ∉ bytes := by
  rw [indexOfByte?, List.findIdx?_eq_none_iff]
  constructor
  · intro h hmem
    simpa using h byte hmem
  · intro h other hmem
    rw [beq_eq_false_iff_ne]
    intro heq
    exact h (heq ▸ hmem)

/-- **The first place of a needle**: the rest of the bytes begins with it there,
`needle <+: bytes.drop i`, and nowhere before. -/
theorem indexOf?_eq_some_iff {bytes needle : Bytes} {i : Nat} :
    bytes.indexOf? needle = some i ↔
      needle <+: bytes.drop i ∧ ∀ j < i, ¬ needle <+: bytes.drop j := by
  induction bytes generalizing i with
  | nil =>
    rw [indexOf?_nil]
    cases needle with
    | nil =>
      cases i with
      | zero => simp
      | succ i =>
        constructor
        · intro h
          cases h
        · rintro ⟨-, hfirst⟩
          exact absurd (List.nil_prefix) (hfirst 0 (Nat.succ_pos i))
    | cons byte needle => simp
  | cons byte rest ih =>
    rw [indexOf?_cons]
    by_cases hfront : needle <+: byte :: rest
    · -- the needle stands at the front, so no other place comes first
      rw [if_pos (List.isPrefixOf_iff_prefix.mpr hfront)]
      constructor
      · rintro ⟨⟩
        exact ⟨hfront, fun j hj => absurd hj (Nat.not_lt_zero j)⟩
      · rintro ⟨-, hfirst⟩
        cases i with
        | zero => rfl
        | succ i => exact absurd hfront (hfirst 0 (Nat.succ_pos i))
    · rw [if_neg (fun h => hfront (List.isPrefixOf_iff_prefix.mp h))]
      cases i with
      | zero =>
        simp only [Option.map_eq_some_iff, List.drop_zero]
        constructor
        · rintro ⟨j, -, hj⟩
          omega
        · intro h
          exact absurd h.1 hfront
      | succ i =>
        -- a place in the rest is one further in the whole
        have hmap : (indexOf? rest needle).map (1 + ·) = some (i + 1) ↔
            indexOf? rest needle = some i := by
          rw [Option.map_eq_some_iff]
          constructor
          · rintro ⟨j, hj, heq⟩
            rw [hj, show j = i by omega]
          · intro hi
            exact ⟨i, hi, Nat.add_comm 1 i⟩
        rw [hmap, ih, List.drop_succ_cons]
        apply and_congr_right
        intro _
        constructor
        · intro hfirst j hj
          cases j with
          | zero => exact hfront
          | succ j => exact hfirst j (Nat.lt_of_succ_lt_succ hj)
        · intro hfirst j hj
          exact hfirst (j + 1) (Nat.succ_lt_succ hj)

/-- A needle has no first place exactly when no rest of the bytes begins with it, not even the empty
rest behind the last byte. -/
theorem indexOf?_eq_none_iff {bytes needle : Bytes} :
    bytes.indexOf? needle = none ↔ ∀ j, ¬ needle <+: bytes.drop j := by
  induction bytes with
  | nil => cases needle <;> simp
  | cons byte rest ih =>
    rw [indexOf?_cons]
    by_cases hfront : needle <+: byte :: rest
    · rw [if_pos (List.isPrefixOf_iff_prefix.mpr hfront)]
      simp only [reduceCtorEq, false_iff]
      intro h
      exact h 0 hfront
    · rw [if_neg (fun h => hfront (List.isPrefixOf_iff_prefix.mp h)), Option.map_eq_none_iff, ih]
      constructor
      · intro hrest j
        -- the rest at `j + 1` is the rest of the rest at `j`
        cases j with
        | zero => exact hfront
        | succ j => exact hrest j
      · intro h j
        exact h (j + 1)

end Bytes

namespace Cursor

/-- **The first place of a byte at or after `start`**, counted from the front of the document: it
stands at `offset`, and nowhere between `start` and there. -/
theorem findByteFrom?_eq_some_iff {cursor : Cursor} {start offset : Nat} {byte : UInt8} :
    cursor.findByteFrom? start byte = some offset ↔
      start ≤ offset ∧ cursor.document[offset]? = some byte ∧
        ∀ i, start ≤ i → i < offset → cursor.document[i]? ≠ some byte := by
  rw [findByteFrom?, Option.map_eq_some_iff]
  simp only [Bytes.indexOfByte?_eq_some_iff, tailFrom, List.getElem?_drop]
  constructor
  · rintro ⟨i, ⟨hbyte, hfirst⟩, rfl⟩
    refine ⟨Nat.le_add_right _ _, hbyte, ?_⟩
    intro j hstart hj
    obtain ⟨k, rfl⟩ := Nat.exists_eq_add_of_le hstart
    exact hfirst k (by omega)
  · rintro ⟨hstart, hbyte, hfirst⟩
    obtain ⟨i, rfl⟩ := Nat.exists_eq_add_of_le hstart
    exact ⟨i, ⟨hbyte, fun j hj => hfirst (start + j) (by omega) (by omega)⟩, rfl⟩

/-- A byte is not found at or after `start` exactly when it does not stand there. -/
theorem findByteFrom?_eq_none_iff {cursor : Cursor} {start : Nat} {byte : UInt8} :
    cursor.findByteFrom? start byte = none ↔
      ∀ i, start ≤ i → cursor.document[i]? ≠ some byte := by
  rw [findByteFrom?, Option.map_eq_none_iff, Bytes.indexOfByte?_eq_none_iff, List.mem_iff_getElem?]
  simp only [tailFrom, List.getElem?_drop, not_exists]
  constructor
  · intro hnone i hstart
    obtain ⟨k, rfl⟩ := Nat.exists_eq_add_of_le hstart
    exact hnone k
  · intro hnone k
    exact hnone (start + k) (Nat.le_add_right _ _)

/-- A byte that stands at `start` is found there: the search looks at `start` itself. -/
theorem findByteFrom?_self {cursor : Cursor} {start : Nat} {byte : UInt8}
    (h : cursor.document[start]? = some byte) : cursor.findByteFrom? start byte = some start :=
  findByteFrom?_eq_some_iff.mpr ⟨Nat.le_refl _, h, fun _ hle hlt => absurd hle (Nat.not_le.mpr hlt)⟩

/-- **The first place of a needle at or after `start`**, counted from the front of the document:
`needle <+: cursor.tailFrom offset`, and nowhere between `start` and there. -/
theorem findFrom?_eq_some_iff {cursor : Cursor} {start offset : Nat} {needle : Bytes} :
    cursor.findFrom? start needle = some offset ↔
      start ≤ offset ∧ needle <+: cursor.tailFrom offset ∧
        ∀ i, start ≤ i → i < offset → ¬ needle <+: cursor.tailFrom i := by
  rw [findFrom?, Option.map_eq_some_iff]
  simp only [Bytes.indexOf?_eq_some_iff, tailFrom, List.drop_drop]
  constructor
  · rintro ⟨i, ⟨hfound, hfirst⟩, rfl⟩
    refine ⟨Nat.le_add_right _ _, hfound, ?_⟩
    intro j hstart hj
    obtain ⟨k, rfl⟩ := Nat.exists_eq_add_of_le hstart
    exact hfirst k (by omega)
  · rintro ⟨hstart, hfound, hfirst⟩
    obtain ⟨i, rfl⟩ := Nat.exists_eq_add_of_le hstart
    exact ⟨i, ⟨hfound, fun j hj => hfirst (start + j) (by omega) (by omega)⟩, rfl⟩

/-- A needle is not found at or after `start` exactly when it does not occur there: no
`cursor.tailFrom i` begins with it. -/
theorem findFrom?_eq_none_iff {cursor : Cursor} {start : Nat} {needle : Bytes} :
    cursor.findFrom? start needle = none ↔ ∀ i, start ≤ i → ¬ needle <+: cursor.tailFrom i := by
  rw [findFrom?, Option.map_eq_none_iff, Bytes.indexOf?_eq_none_iff]
  simp only [tailFrom, List.drop_drop]
  constructor
  · intro hnone i hstart
    obtain ⟨k, rfl⟩ := Nat.exists_eq_add_of_le hstart
    exact hnone k
  · intro hnone k
    exact hnone (start + k) (Nat.le_add_right _ _)

/-- **The next tag** is the first `<` at or after the cursor, at `tag.start`, with the first `>`
behind it, at `tag.stop`. -/
theorem nextTag_eq_ok_iff {cursor : Cursor} {tag : Tag} :
    cursor.nextTag = .ok tag ↔
      cursor.findByte? Byte.lessThan = some tag.start ∧
        cursor.findByteFrom? (tag.start + 1) Byte.greaterThan = some tag.stop := by
  unfold nextTag
  cases hstart : cursor.findByte? Byte.lessThan with
  | none => simp
  | some start =>
    dsimp only
    cases hstop : cursor.findByteFrom? (start + 1) Byte.greaterThan with
    | none =>
      simp only [reduceCtorEq, Option.some.injEq, false_iff, not_and]
      rintro rfl
      simp [hstop]
    | some stop =>
      simp only [Except.ok.injEq, Option.some.injEq]
      constructor
      · rintro rfl
        exact ⟨rfl, hstop⟩
      · rintro ⟨rfl, h⟩
        rw [hstop, Option.some.injEq] at h
        rw [h]

/-- A cursor on the `<` of its next tag has the same next tag, so that the tag that ended a prolog
is looked for once more. -/
theorem nextTag_setPosition_start {cursor : Cursor} {tag : Tag} (h : cursor.nextTag = .ok tag) :
    (cursor.setPosition tag.start).nextTag = .ok tag := by
  have hbounds := nextTag_bounds h
  rw [nextTag_eq_ok_iff] at h ⊢
  refine ⟨?_, h.2⟩
  have hposition : (cursor.setPosition tag.start).position = tag.start := by
    rw [position_setPosition]
    omega
  rw [findByte?, hposition]
  exact findByteFrom?_self (findByteFrom?_eq_some h.1).2

/-- A cursor that has a next tag is not at the end. -/
theorem isEof_of_nextTag {cursor : Cursor} {tag : Tag} (h : cursor.nextTag = .ok tag) :
    cursor.isEof = false := by
  have hbounds := nextTag_bounds h
  rw [isEof, decide_eq_false_iff_not]
  omega

/-- A tag begins with `<` and ends with `>`. -/
theorem document_of_nextTag {cursor : Cursor} {tag : Tag} (h : cursor.nextTag = .ok tag) :
    cursor.document[tag.start]? = some Byte.lessThan ∧
      cursor.document[tag.stop]? = some Byte.greaterThan := by
  obtain ⟨hstart, hstop⟩ := nextTag_eq_ok_iff.mp h
  exact ⟨(findByteFrom?_eq_some hstart).2, (findByteFrom?_eq_some hstop).2⟩

end Cursor

/-- A declaration has a `?` or a `!` behind its `<`, which is therefore not the last byte. -/
theorem TagKind.eq_mark_of_markup {byte? : Option UInt8} (h : ofByte? byte? = .markup) :
    byte? = some Byte.question ∨ byte? = some Byte.bang := by
  cases byte? with
  | none => cases h
  | some byte =>
    rw [ofByte?] at h
    split at h
    · rename_i hmark
      simpa using hmark
    · split at h
      · cases h
      · cases h

/-- A closing tag has a slash behind its `<`. -/
theorem TagKind.eq_slash_of_closing {byte? : Option UInt8} (h : ofByte? byte? = .closing) :
    byte? = some Byte.slash := by
  cases byte? with
  | none => cases h
  | some byte =>
    rw [ofByte?] at h
    split at h
    · cases h
    · split at h
      · rename_i hslash
        rw [hslash]
      · cases h

end TagWalk
