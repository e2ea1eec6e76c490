import TagWalk.Proofs.Decoding

/-! # Trimming by two scans

Bytes are trimmed by a scan from the front and one from the back, and neither knows where the other one
stops. They meet in order all the same, so that there is always a slice between their offsets, also when
no byte stays and each scan runs through everything.

* **`Bytes.trimStart_le_trimStop`**, **`Bytes.trimStop_le_length`** — the slice is in order and in range.
* **`Bytes.matching_of_mem_take`**, **`Bytes.matching_of_mem_drop`** — what the two scans pass over.
* **`Bytes.trim_append_of_matching`** — matching bytes at the ends make no difference.
* **`Bytes.IsTrimmed`** — bytes without the longest matching ends; **`Bytes.trim_isTrimmed`** — trimming
  leaves these, and leaves them as they are. -/

namespace TagWalk.Bytes

variable {matching : UInt8 → Bool} {bytes : Bytes}

/-! ## The two scans -/

/-- The scan from the front stays in the bytes. -/
theorem trimStart_le_length (matching : UInt8 → Bool) (bytes : Bytes) :
    bytes.trimStart matching ≤ bytes.length :=
  List.findIdx_le_length

/-- Where the scan from the back finds nothing, it answers with what the other scan found,
`bytes.trimStart matching`. -/
theorem trimStop_of_none (h : bytes.reverse.findIdx? (fun byte => !matching byte) = none) :
    bytes.trimStop matching = bytes.trimStart matching := by
  unfold trimStop
  rw [h]

/-- Where it finds a byte, it answers with the offset behind it, `bytes.length - fromEnd`. -/
theorem trimStop_of_some {fromEnd : Nat}
    (h : bytes.reverse.findIdx? (fun byte => !matching byte) = some fromEnd) :
    bytes.trimStop matching = bytes.length - fromEnd := by
  unfold trimStop
  rw [h]

/-- **The scan from the back stays in the bytes** as well. -/
theorem trimStop_le_length (matching : UInt8 → Bool) (bytes : Bytes) :
    bytes.trimStop matching ≤ bytes.length := by
  cases hlast : bytes.reverse.findIdx? fun byte => !matching byte with
  | none =>
    rw [trimStop_of_none hlast]
    exact trimStart_le_length matching bytes
  | some fromEnd =>
    rw [trimStop_of_some hlast]
    exact Nat.sub_le _ _

/-- **The scans meet in order**: the last byte that stays does not stand before the first one, so
`bytes.trimStart matching ≤ bytes.trimStop matching`. -/
theorem trimStart_le_trimStop (matching : UInt8 → Bool) (bytes : Bytes) :
    bytes.trimStart matching ≤ bytes.trimStop matching := by
  cases hlast : bytes.reverse.findIdx? fun byte => !matching byte with
  | none => exact Nat.le_of_eq (trimStop_of_none hlast).symm
  | some fromEnd =>
    obtain ⟨hlt, hstays, -⟩ := List.findIdx?_eq_some_iff_getElem.mp hlast
    rw [List.length_reverse] at hlt
    rw [List.getElem_reverse] at hstays
    -- the last byte that stays is not passed over by the scan from the front
    have hstart : bytes.trimStart matching ≤ bytes.length - 1 - fromEnd := by
      by_contra hlate
      have hmatches := List.not_of_lt_findIdx (Nat.not_le.mp hlate)
      rw [hstays] at hmatches
      cases hmatches
    rw [trimStop_of_some hlast]
    omega

/-- The scan from the front passes over matching bytes only. -/
theorem matching_of_mem_take {byte : UInt8} (h : byte ∈ bytes.take (bytes.trimStart matching)) :
    matching byte = true := by
  have htake : bytes.take (bytes.trimStart matching) = bytes.takeWhile matching :=
    List.takeWhile_eq_take_findIdx_not.symm
  rw [htake] at h
  exact List.mem_takeWhile_imp h

/-- The scan from the back passes over matching bytes only, and over all bytes behind its offset. -/
theorem matching_of_mem_drop {byte : UInt8} (h : byte ∈ bytes.drop (bytes.trimStop matching)) :
    matching byte = true := by
  cases hlast : bytes.reverse.findIdx? fun byte => !matching byte with
  | none =>
    -- no byte stays at all
    have hall := List.findIdx?_eq_none_iff.mp hlast byte (List.mem_reverse.mpr (List.mem_of_mem_drop h))
    rwa [Bool.not_eq_false'] at hall
  | some fromEnd =>
    obtain ⟨-, rfl⟩ := List.findIdx?_eq_some_iff_findIdx_eq.mp hlast
    rw [trimStop_of_some hlast, ← List.mem_reverse, ← List.take_reverse,
      ← List.takeWhile_eq_take_findIdx_not] at h
    exact List.mem_takeWhile_imp h

/-- What lies in front of a slice, the slice and what lies behind it are all there is, when
`start ≤ stop`. -/
theorem take_append_slice_append_drop (bytes : Bytes) {start stop : Nat} (h : start ≤ stop) :
    bytes.take start ++ (bytes.slice start stop ++ bytes.drop stop) = bytes := by
  have hdrop : bytes.drop stop = (bytes.drop start).drop (stop - start) := by
    rw [List.drop_drop, Nat.add_sub_cancel' h]
  rw [slice, hdrop, List.take_append_drop, List.take_append_drop]

/-! ## Ends that match -/

/-- **Matching bytes at the ends** make no difference: `front ++ (middle ++ back)` is trimmed into
what `middle` is trimmed into. -/
theorem trim_append_of_matching {front back : Bytes} (hfront : ∀ byte ∈ front, matching byte = true)
    (hback : ∀ byte ∈ back, matching byte = true) (middle : Bytes) :
    Bytes.trim matching (front ++ (middle ++ back)) = middle.trim matching := by
  obtain ⟨inner, outer, hsplit, hinner, houter, hhead, hlast⟩ := exists_trim matching middle
  have hends : front ++ (middle ++ back) =
      (front ++ inner) ++ (middle.trim matching ++ (outer ++ back)) := by
    nth_rewrite 1 [hsplit]
    simp only [List.append_assoc]
  rw [hends]
  exact trim_append (List.forall_mem_append.mpr ⟨hfront, hinner⟩)
    (List.forall_mem_append.mpr ⟨houter, hback⟩) hhead hlast

/-- **Trimming twice** is trimming once:
`(bytes.trim matching).trim matching = bytes.trim matching`. -/
theorem trim_trim (matching : UInt8 → Bool) (bytes : Bytes) :
    (bytes.trim matching).trim matching = bytes.trim matching := by
  obtain ⟨front, back, hsplit, hfront, hback, -⟩ := exists_trim matching bytes
  have hagain := trim_append_of_matching hfront hback (bytes.trim matching)
  rw [← hsplit] at hagain
  exact hagain.symm

/-- **Nothing is left** exactly when every byte matches. -/
theorem trim_eq_nil_iff : bytes.trim matching = [] ↔ ∀ byte ∈ bytes, matching byte = true := by
  constructor
  · intro hnil byte hm
    -- with nothing between them, the two matching ends are all bytes
    obtain ⟨front, back, hsplit, hfront, hback, -⟩ := exists_trim matching bytes
    rw [hsplit, hnil, List.nil_append] at hm
    rcases List.mem_append.mp hm with hm | hm
    · exact hfront byte hm
    · exact hback byte hm
  · intro hall
    have htrim := trim_append_of_matching hall (List.forall_mem_nil _) []
    rw [List.append_nil, List.append_nil] at htrim
    rw [htrim]
    rfl

/-- What is left after trimming begins and ends with bytes that stay, if it is anything. -/
theorem ends_trim (matching : UInt8 → Bool) (bytes : Bytes) :
    bytes.trim matching = [] ∨
      ∃ first last, (bytes.trim matching).head? = some first ∧ matching first = false ∧
        (bytes.trim matching).getLast? = some last ∧ matching last = false := by
  obtain ⟨-, -, -, -, -, hhead, hlast⟩ := exists_trim matching bytes
  by_cases hnil : bytes.trim matching = []
  · exact .inl hnil
  · have hfirst := List.head?_eq_some_head hnil
    have hfinal := List.getLast?_eq_some_getLast hnil
    exact .inr ⟨_, _, hfirst, hhead _ hfirst, hfinal, hlast _ hfinal⟩

/-- **Trimming takes off as much as there is**: whatever matching bytes are taken off, what is left
of them by trimming is still there, `bytes.trim matching <:+: middle`. -/
theorem trim_infix_of_matching {front middle back : Bytes} (hsplit : bytes = front ++ (middle ++ back))
    (hfront : ∀ byte ∈ front, matching byte = true) (hback : ∀ byte ∈ back, matching byte = true) :
    bytes.trim matching <:+: middle := by
  rw [hsplit, trim_append_of_matching hfront hback]
  obtain ⟨inner, outer, hmiddle, -⟩ := exists_trim matching middle
  exact ⟨inner, outer, (hmiddle.trans (List.append_assoc _ _ _).symm).symm⟩

/-- **Bytes without the longest matching ends**: what lies between the offsets `start` and `stop`,
where everything in front of the first one and behind the second one matches. -/
structure IsTrimmed (matching : UInt8 → Bool) (bytes : Bytes) (start stop : Nat) (trimmed : Bytes) :
    Prop where
  /-- The offsets are in order. -/
  start_le : start ≤ stop
  /-- They are in range. -/
  stop_le : stop ≤ bytes.length
  /-- Nothing but the two ends is taken off. -/
  append_eq : bytes.take start ++ (trimmed ++ bytes.drop stop) = bytes
  /-- The front end matches. -/
  front_matching : ∀ byte ∈ bytes.take start, matching byte = true
  /-- The back end matches. -/
  back_matching : ∀ byte ∈ bytes.drop stop, matching byte = true
  /-- What is left begins and ends with bytes that stay, if it is anything. -/
  ends_stay : trimmed = [] ∨
    ∃ first last, trimmed.head? = some first ∧ matching first = false ∧
      trimmed.getLast? = some last ∧ matching last = false
  /-- Nothing is left exactly when every byte matches. -/
  eq_nil_iff : trimmed = [] ↔ ∀ byte ∈ bytes, matching byte = true
  /-- No other matching ends leave less. -/
  infix_of_matching : ∀ front middle back, bytes = front ++ (middle ++ back) →
    (∀ byte ∈ front, matching byte = true) → (∀ byte ∈ back, matching byte = true) →
      trimmed <:+: middle

/-- **Trimming removes exactly the longest matching ends**, whatever matches: the scans from both
ends, `bytes.trimStart matching` and `bytes.trimStop matching`, meet in order and inside the bytes,
what they pass over matches, and what lies between them begins and ends with bytes that stay, unless
all bytes match and nothing is left. Trimming what is left changes nothing:
`(bytes.trim matching).trim matching = bytes.trim matching`. -/
theorem trim_isTrimmed (matching : UInt8 → Bool) (bytes : Bytes) :
    IsTrimmed matching bytes (bytes.trimStart matching) (bytes.trimStop matching)
        (bytes.trim matching) ∧
      (bytes.trim matching).trim matching = bytes.trim matching := by
  have horder := trimStart_le_trimStop matching bytes
  refine ⟨⟨horder, trimStop_le_length matching bytes, ?_, ?_, ?_, ends_trim matching bytes,
    trim_eq_nil_iff, ?_⟩, trim_trim matching bytes⟩
  · exact take_append_slice_append_drop bytes horder
  · exact fun _ => matching_of_mem_take
  · exact fun _ => matching_of_mem_drop
  · exact fun _ _ _ => trim_infix_of_matching

/-- A single byte that stays is left between the ends, and nothing is left without one. -/
example : Bytes.trim (· == Byte.quote) [0x22, 0x22, 0x31, 0x22] = [0x31] ∧
    Bytes.trim (· == Byte.quote) [0x22, 0x22] = [] := by decide

end TagWalk.Bytes
