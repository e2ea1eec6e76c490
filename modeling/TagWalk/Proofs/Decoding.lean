import Mathlib.Data.List.DropRight
import TagWalk.Proofs.Written

/-! # What a declaration's text says

A text is decoded by cutting, splitting and trimming. Here the outcome is told without the loop that
collects attributes: the name and all the attributes that a text declares are functions of the text,
the first ones are kept, and the options decide over the others.

* **`Bytes.exists_trim`** — what trimming takes off, and what it leaves.
* **`Bytes.splitPair?_eq_some_iff`** — the two sides of the only separator.
* **`Declaration.nameIn`**, **`Declaration.attributesIn`** — what a text declares.
* **`Declaration.collect_eq`** — which attributes are kept, and whether one was left over.
* **`Declaration.result_decode_eq_ok_iff`**, **`Declaration.result_decode_eq_error_iff`** — when a text
  is decoded, into what, and why it is not. -/

namespace TagWalk

namespace Bytes

/-! ## Trimming and cutting -/

/-- The longest matching front and, of the rest, the longest matching back leave a middle of which
neither end matches: `bytes = front ++ (middle ++ back)`. -/
theorem exists_rdropWhile (matching : UInt8 → Bool) (bytes : Bytes) :
    ∃ front back, bytes = front ++ ((bytes.dropWhile matching).rdropWhile matching ++ back) ∧
      (∀ byte ∈ front, matching byte = true) ∧ (∀ byte ∈ back, matching byte = true) ∧
      (∀ byte, ((bytes.dropWhile matching).rdropWhile matching).head? = some byte →
        matching byte = false) ∧
      ∀ byte, ((bytes.dropWhile matching).rdropWhile matching).getLast? = some byte →
        matching byte = false := by
  let rest := bytes.dropWhile matching
  let middle := rest.rdropWhile matching
  have hsplit : bytes = bytes.takeWhile matching ++ (middle ++ rest.rtakeWhile matching) := by
    rw [List.rdropWhile_append_rtakeWhile, List.takeWhile_append_dropWhile]
  have hfront : ∀ byte ∈ bytes.takeWhile matching, matching byte = true :=
    fun _ => List.mem_takeWhile_imp
  have hback : ∀ byte ∈ rest.rtakeWhile matching, matching byte = true :=
    fun _ => List.mem_rtakeWhile_imp
  have hhead : ∀ byte, middle.head? = some byte → matching byte = false := by
    intro byte hbyte
    -- a middle that is not empty begins where the rest does
    obtain ⟨more, hmore⟩ := List.rdropWhile_prefix matching (l := rest)
    have hrest : rest.head? = some byte := by
      rw [← hmore, List.head?_append]
      exact Option.or_eq_some_iff.mpr (.inl hbyte)
    have hfirst := List.head?_dropWhile_not matching bytes
    rw [show (bytes.dropWhile matching).head? = some byte from hrest] at hfirst
    exact hfirst
  have hlast : ∀ byte, middle.getLast? = some byte → matching byte = false := by
    intro byte hbyte
    have hne : middle ≠ [] := List.getLast?_isSome.mp (by rw [hbyte]; rfl)
    have hnot := List.rdropWhile_last_not matching rest hne
    rw [List.getLast?_eq_some_getLast hne, Option.some.injEq] at hbyte
    rw [← hbyte]
    exact Bool.eq_false_iff.mpr hnot
  exact ⟨_, _, hsplit, hfront, hback, hhead, hlast⟩

/-- **Trimming from both ends at once** is trimming from one end after the other: `dropWhile`, and
then `rdropWhile` of what that leaves. -/
theorem trim_eq_rdropWhile (matching : UInt8 → Bool) (bytes : Bytes) :
    bytes.trim matching = (bytes.dropWhile matching).rdropWhile matching := by
  obtain ⟨front, back, hsplit, hfront, hback, hhead, hlast⟩ := exists_rdropWhile matching bytes
  have htrim := trim_append hfront hback hhead hlast
  rwa [← hsplit] at htrim

/-- **Trimming takes matching bytes off both ends**, and leaves a middle of which neither end
matches: `bytes = front ++ (bytes.trim matching ++ back)`. -/
theorem exists_trim (matching : UInt8 → Bool) (bytes : Bytes) :
    ∃ front back, bytes = front ++ (bytes.trim matching ++ back) ∧
      (∀ byte ∈ front, matching byte = true) ∧ (∀ byte ∈ back, matching byte = true) ∧
      (∀ byte, (bytes.trim matching).head? = some byte → matching byte = false) ∧
      ∀ byte, (bytes.trim matching).getLast? = some byte → matching byte = false := by
  rw [trim_eq_rdropWhile]
  exact exists_rdropWhile matching bytes

/-- What is left after trimming was there before: a `byte ∈ bytes.trim matching` has `byte ∈
bytes`. -/
theorem mem_of_mem_trim {matching : UInt8 → Bool} {bytes : Bytes} {byte : UInt8}
    (h : byte ∈ bytes.trim matching) : byte ∈ bytes := by
  obtain ⟨front, back, hsplit, -⟩ := exists_trim matching bytes
  rw [hsplit]
  exact List.mem_append_right _ (List.mem_append_left _ h)

/-- **The two sides of the only separator** have none: `bytes = left ++ separator :: right` with
`separator ∉ left` and `separator ∉ right`. -/
theorem splitPair?_eq_some_iff {bytes left right : Bytes} {separator : UInt8} :
    bytes.splitPair? separator = some (left, right) ↔
      bytes = left ++ separator :: right ∧ separator ∉ left ∧ separator ∉ right := by
  constructor
  · intro h
    unfold splitPair? at h
    rw [List.span_eq_takeWhile_dropWhile] at h
    have hsplit := List.takeWhile_append_dropWhile (p := (· != separator)) (l := bytes)
    have hnone : separator ∉ bytes.takeWhile (· != separator) := by
      intro hm
      simpa using List.mem_takeWhile_imp hm
    cases hrest : bytes.dropWhile (· != separator) with
    | nil =>
      rw [hrest] at h
      cases h
    | cons byte rest =>
      -- the scan stops at a separator
      have hfirst := List.head?_dropWhile_not (· != separator) bytes
      rw [hrest] at h hsplit hfirst
      have hbyte : byte = separator := by simpa using hfirst
      subst hbyte
      simp only at h
      split at h
      · cases h
      · rename_i hmore
        cases h
        exact ⟨hsplit.symm, hnone, by simpa using hmore⟩
  · rintro ⟨rfl, hleft, hright⟩
    exact splitPair?_append_separator hleft hright

/-- **No piece has a separator**, neither the first one nor any of those behind it. -/
theorem separator_not_mem_pieces (separator : UInt8) (bytes : Bytes) :
    separator ∉ (bytes.pieces separator).1 ∧
      ∀ piece ∈ (bytes.pieces separator).2, separator ∉ piece := by
  induction bytes with
  | nil => simp
  | cons byte rest ih =>
    obtain ⟨hfirst, hothers⟩ := ih
    by_cases hbyte : byte = separator
    · -- a separator begins a new first piece, and the old one is among the others
      subst hbyte
      rw [pieces_separator]
      refine ⟨List.not_mem_nil, fun piece hm => ?_⟩
      rcases List.mem_cons.mp hm with rfl | hm
      · exact hfirst
      · exact hothers piece hm
    · rw [pieces_cons_of_ne hbyte]
      exact ⟨List.not_mem_cons_of_ne_of_not_mem (Ne.symm hbyte) hfirst, hothers⟩

/-- A separator at the end makes one more piece, which is empty: `[]` behind all the others. -/
theorem pieces_concat_separator (separator : UInt8) (bytes : Bytes) :
    Bytes.pieces separator (bytes ++ [separator]) =
      ((bytes.pieces separator).1, (bytes.pieces separator).2 ++ [[]]) := by
  induction bytes with
  | nil => simp
  | cons byte rest ih =>
    by_cases hbyte : byte = separator
    · subst hbyte
      rw [List.cons_append, pieces_separator, pieces_separator, ih]
      rfl
    · rw [List.cons_append, pieces_cons_of_ne hbyte, pieces_cons_of_ne hbyte, ih]

end Bytes

/-! ## What a text declares -/

namespace Declaration

/-- The element name at the front of a text: the first piece between spaces, without a slash at the
very end of the text. -/
def nameIn (text : Bytes) : Bytes := ((stripSlash text).1.pieces Byte.space).1

/-- **All the attributes that a text declares**, whether or not there is room for them: what
`Attribute.ofPiece?` makes of the pieces behind the name. -/
def attributesIn (text : Bytes) : List Attribute :=
  ((stripSlash text).1.pieces Byte.space).2.filterMap Attribute.ofPiece?

/-- The attributes of a text for which there is room: the first `AttributeList.capacity` of
`attributesIn text`. -/
def keptIn (text : Bytes) : AttributeList :=
  ⟨(attributesIn text).take AttributeList.capacity, List.length_take_le _ _⟩

/-- **A text without a name** is empty, begins with a space, or is a slash and nothing else. -/
theorem text_of_nameless {text : Bytes} (h : nameIn text = []) :
    text = [] ∨ text.head? = some Byte.space ∨ text = [Byte.slash] := by
  -- a text whose first piece is empty begins with a separator, if it has a byte
  have hpieces : ∀ bytes : Bytes, (bytes.pieces Byte.space).1 = [] →
      bytes = [] ∨ bytes.head? = some Byte.space := by
    rintro (_ | ⟨byte, rest⟩) hfirst
    · exact .inl rfl
    · by_cases hbyte : byte = Byte.space
      · exact .inr (congrArg some hbyte)
      · rw [Bytes.pieces_cons_of_ne hbyte] at hfirst
        cases hfirst
  unfold nameIn stripSlash at h
  split at h
  · rename_i hslash
    have htext : text = text.dropLast ++ [Byte.slash] :=
      (List.dropLast_append_getLast? _ hslash).symm
    rcases hpieces text.dropLast h with hempty | hspace
    · rw [hempty] at htext
      exact .inr (.inr htext)
    · rw [htext, List.head?_append, hspace]
      exact .inr (.inl rfl)
  · rcases hpieces _ h with hempty | hspace
    · exact .inl hempty
    · exact .inr (.inl hspace)

section Collect

variable {kept pushed : AttributeList} {piece : Bytes} {attr refused : Attribute}

/-- A piece that is no attribute is skipped. -/
theorem collect_cons_of_none (hpiece : Attribute.ofPiece? piece = none) (pieces : List Bytes) :
    collect kept (piece :: pieces) = collect kept pieces := by
  simp only [collect, hpiece]

/-- An attribute for which there is room is kept. -/
theorem collect_cons_of_ok (hpiece : Attribute.ofPiece? piece = some attr)
    (hpush : kept.push attr = .ok pushed) (pieces : List Bytes) :
    collect kept (piece :: pieces) = collect pushed pieces := by
  simp only [collect, hpiece, hpush]

/-- An attribute without room ends the work. -/
theorem collect_cons_of_error (hpiece : Attribute.ofPiece? piece = some attr)
    (hpush : kept.push attr = .error refused) (pieces : List Bytes) :
    collect kept (piece :: pieces) = (kept, true) := by
  simp only [collect, hpiece, hpush]

end Collect

/-- **Collecting keeps the first attributes**, `capacity` of them with those that were kept before,
and says whether there is one more. -/
theorem collect_eq (kept : AttributeList) (pieces : List Bytes) :
    (collect kept pieces).1.items =
        (kept.items ++ pieces.filterMap Attribute.ofPiece?).take AttributeList.capacity ∧
      (collect kept pieces).2 =
        decide (AttributeList.capacity <
          kept.items.length + (pieces.filterMap Attribute.ofPiece?).length) := by
  induction pieces generalizing kept with
  | nil =>
    have hlength := kept.length_le
    simp [collect, List.take_of_length_le hlength, Nat.not_lt.mpr hlength]
  | cons piece pieces ih =>
    cases hpiece : Attribute.ofPiece? piece with
    | none =>
      rw [collect_cons_of_none hpiece, List.filterMap_cons_none hpiece]
      exact ih kept
    | some attr =>
      rw [List.filterMap_cons_some hpiece]
      cases hpush : kept.push attr with
      | ok pushed =>
        -- the attribute that is pushed is the next one of the kept
        obtain ⟨hitems, hsurplus⟩ := ih pushed
        rw [collect_cons_of_ok hpiece hpush, hitems, hsurplus, AttributeList.items_push hpush]
        simp [Nat.add_comm, Nat.add_left_comm]
      | error refused =>
        have hfull := (AttributeList.push_eq_error_iff.mp hpush).1
        have hlength : kept.items.length = AttributeList.capacity := of_decide_eq_true hfull
        rw [collect_cons_of_error hpiece hpush, List.take_left' hlength]
        simp [hlength]

/-- What is collected from the pieces of a text: `keptIn text`, and whether
`capacity < (attributesIn text).length`. -/
theorem collect_pieces_eq (text : Bytes) :
    collect .empty ((stripSlash text).1.pieces Byte.space).2 =
      (keptIn text, decide (AttributeList.capacity < (attributesIn text).length)) := by
  obtain ⟨hitems, hsurplus⟩ := collect_eq .empty ((stripSlash text).1.pieces Byte.space).2
  rw [AttributeList.items_empty, List.nil_append] at hitems
  rw [AttributeList.items_empty, List.length_nil, Nat.zero_add] at hsurplus
  refine Prod.ext ?_ hsurplus
  generalize collect .empty ((stripSlash text).1.pieces Byte.space).2 = collected at hitems
  obtain ⟨⟨items, hlength⟩, surplus⟩ := collected
  obtain rfl : items = (attributesIn text).take AttributeList.capacity := hitems
  rfl

section Decode

variable {overflow : Overflow} {position : Nat} {text : Bytes}

/-- A text without a name is no declaration: `Fault.emptyDeclaration position`, whatever stands
behind the name. -/
theorem decode_of_nameless (hname : nameIn text = []) :
    decode overflow position text = .quiet (.error (.emptyDeclaration position)) := by
  have hempty : ((stripSlash text).1.pieces Byte.space).1.isEmpty = true :=
    List.isEmpty_iff.mpr hname
  simp only [decode, hempty, if_true]

/-- **With room for all attributes**, a text with a name is decoded into
`⟨nameIn text, keptIn text, (stripSlash text).2⟩`, and nothing is logged. -/
theorem decode_of_room (hname : nameIn text ≠ [])
    (hroom : (attributesIn text).length ≤ AttributeList.capacity) :
    decode overflow position text =
      .quiet (.ok ⟨nameIn text, keptIn text, (stripSlash text).2⟩) := by
  have hsome : ¬ ((stripSlash text).1.pieces Byte.space).1.isEmpty = true :=
    fun hempty => hname (List.isEmpty_iff.mp hempty)
  have hall := collect_pieces_eq text
  rw [decide_eq_false (Nat.not_lt.mpr hroom)] at hall
  simp only [decode, if_neg hsome, hall]
  rfl

/-- **Without room for all attributes**, the options decide: `.truncate` logs and answers with the
first ones, and `.reject` answers with `Fault.tooManyAttributes`. -/
theorem decode_of_surplus (position : Nat) (hname : nameIn text ≠ [])
    (hsurplus : AttributeList.capacity < (attributesIn text).length) :
    decode .truncate position text =
        ⟨[.truncatingAttributes (nameIn text)],
          .ok ⟨nameIn text, keptIn text, (stripSlash text).2⟩⟩ ∧
      decode .reject position text =
        .quiet (.error (.tooManyAttributes (Utf8.lossy (nameIn text)) AttributeList.capacity)) := by
  have hsome : ¬ ((stripSlash text).1.pieces Byte.space).1.isEmpty = true :=
    fun hempty => hname (List.isEmpty_iff.mp hempty)
  have hall := collect_pieces_eq text
  rw [decide_eq_true hsurplus] at hall
  simp only [decode, if_neg hsome, hall]
  exact ⟨rfl, rfl⟩

/-- **When a text is decoded, and into what**: it has a name, and its attributes fit or may be
dropped. The declaration is `⟨nameIn text, keptIn text, (stripSlash text).2⟩`. -/
theorem result_decode_eq_ok_iff {declaration : Declaration} :
    (decode overflow position text).result = .ok declaration ↔
      nameIn text ≠ [] ∧
        (overflow = .reject → (attributesIn text).length ≤ AttributeList.capacity) ∧
        declaration = ⟨nameIn text, keptIn text, (stripSlash text).2⟩ := by
  by_cases hname : nameIn text = []
  · simp [decode_of_nameless hname, hname]
  · by_cases hroom : (attributesIn text).length ≤ AttributeList.capacity
    · simp [decode_of_room hname hroom, hname, hroom, eq_comm]
    · obtain ⟨htruncate, hreject⟩ := decode_of_surplus position hname
        (Nat.not_le.mp hroom)
      cases overflow with
      | truncate => simp [htruncate, hname, eq_comm]
      | reject => simp [hreject, hroom]

/-- **Why a text is not decoded**: it has no name, `.emptyDeclaration position`, or it has more than
`capacity` attributes where none may be dropped, `.tooManyAttributes`. An empty name is reported
first. -/
theorem result_decode_eq_error_iff {fault : Fault} :
    (decode overflow position text).result = .error fault ↔
      nameIn text = [] ∧ fault = .emptyDeclaration position ∨
        nameIn text ≠ [] ∧ overflow = .reject ∧
          AttributeList.capacity < (attributesIn text).length ∧
          fault = .tooManyAttributes (Utf8.lossy (nameIn text)) AttributeList.capacity := by
  by_cases hname : nameIn text = []
  · simp [decode_of_nameless hname, hname, eq_comm]
  · by_cases hroom : (attributesIn text).length ≤ AttributeList.capacity
    · simp [decode_of_room hname hroom, hname, Nat.not_lt.mpr hroom]
    · have hsurplus := Nat.not_le.mp hroom
      obtain ⟨htruncate, hreject⟩ := decode_of_surplus position hname hsurplus
      cases overflow with
      | truncate => simp [htruncate, hname]
      | reject => simp [hreject, hname, hsurplus, eq_comm]

end Decode

end Declaration

end TagWalk
