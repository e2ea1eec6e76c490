import Mathlib.Data.List.TakeDrop
import TagWalk.Markup
import TagWalk.Node
import TagWalk.Proofs.Search
import TagWalk.Reader.Body

/-! # Reading what was written

The written form of an item is read back part by part: a search stops where a part ends, because the
byte it looks for does not occur inside the part, and a declaration is decoded into the name and the
attributes it was written from.

* **`Item.decode_inner`** — the inner text of an opening tag is decoded into what it was written from.
* **`Cursor.nextTag_of_remaining`** — the next tag, when what is left of the document is known.
* **`Cursor.closingTagOf_of_drop`** — the closing tag of a node, when the bytes behind its opening
  tag are known. -/

namespace TagWalk

namespace Bytes

/-! ## Pieces and ends -/

/-- Bytes without the separator are one piece, `(bytes, [])`. -/
theorem pieces_of_not_mem {separator : UInt8} {bytes : Bytes} (h : separator ∉ bytes) :
    bytes.pieces separator = (bytes, []) := by
  induction bytes with
  | nil => rfl
  | cons byte rest ih =>
    obtain ⟨hne, hrest⟩ := List.ne_and_not_mem_of_not_mem_cons h
    rw [pieces_cons_of_ne (Ne.symm hne), ih hrest]

/-- The first separator ends the first piece, `front`, and the others are cut from `rest`. -/
theorem pieces_append_separator {separator : UInt8} {front : Bytes} (h : separator ∉ front)
    (rest : Bytes) :
    Bytes.pieces separator (front ++ separator :: rest) =
      (front, (rest.pieces separator).1 :: (rest.pieces separator).2) := by
  induction front with
  | nil => exact pieces_separator separator rest
  | cons byte front ih =>
    obtain ⟨hne, hfront⟩ := List.ne_and_not_mem_of_not_mem_cons h
    rw [List.cons_append, pieces_cons_of_ne (Ne.symm hne), ih hfront]

/-- Bytes with one separator have two sides, `left` and `right`. -/
theorem splitPair?_append_separator {separator : UInt8} {left right : Bytes}
    (hleft : separator ∉ left) (hright : separator ∉ right) :
    Bytes.splitPair? (left ++ separator :: right) separator = some (left, right) := by
  have hspan : (left ++ separator :: right).span (· != separator) = (left, separator :: right) := by
    rw [List.span_eq_takeWhile_dropWhile]
    -- the front reaches to the first separator
    have hall : ∀ byte ∈ left, (byte != separator) = true := by
      intro byte hm
      rw [bne_iff_ne]
      intro heq
      exact hleft (heq ▸ hm)
    rw [List.takeWhile_append_of_pos hall, List.dropWhile_append_of_pos hall]
    simp
  unfold splitPair?
  rw [hspan]
  simp [hright]

/-- The front of a scan that finds nothing in it is passed over, and counted by its
`front.length`. -/
theorem findIdx_append_of_forall {stays : UInt8 → Bool} {front : Bytes}
    (hfront : ∀ byte ∈ front, stays byte = false) (rest : Bytes) :
    (front ++ rest).findIdx stays = front.length + rest.findIdx stays := by
  have hlength : front.findIdx stays = front.length := List.findIdx_eq_length.mpr hfront
  rw [List.findIdx_append, if_neg (by omega), Nat.add_comm]

/-- A scan ends at the front when the first byte stays. -/
theorem findIdx_eq_zero_of_head? {stays : UInt8 → Bool} {bytes : Bytes} {byte : UInt8}
    (hhead : bytes.head? = some byte) (hstays : stays byte = true) : bytes.findIdx stays = 0 := by
  obtain ⟨rest, rfl⟩ := List.head?_eq_some_iff.mp hhead
  rw [List.findIdx_cons, hstays]
  rfl

/-- Where some byte stays, the scan from the back is one from the front of the reversed bytes. -/
theorem trimStop_of_mem {matching : UInt8 → Bool} {bytes : Bytes} {byte : UInt8} (hm : byte ∈ bytes)
    (hstays : matching byte = false) :
    bytes.trimStop matching =
      bytes.length - bytes.reverse.findIdx fun byte => !matching byte := by
  have hlt : bytes.reverse.findIdx (fun byte => !matching byte) < bytes.reverse.length :=
    List.findIdx_lt_length.mpr ⟨byte, List.mem_reverse.mpr hm, by rw [hstays]; rfl⟩
  unfold trimStop
  rw [List.findIdx?_eq_some_iff_findIdx_eq.mpr ⟨hlt, rfl⟩]

/-- **Trimming leaves the middle** between matching ends, when neither of its own ends matches:
`front ++ (middle ++ back)` is trimmed into `middle`. -/
theorem trim_append {matching : UInt8 → Bool} {front middle back : Bytes}
    (hfront : ∀ byte ∈ front, matching byte = true) (hback : ∀ byte ∈ back, matching byte = true)
    (hhead : ∀ byte, middle.head? = some byte → matching byte = false)
    (hlast : ∀ byte, middle.getLast? = some byte → matching byte = false) :
    Bytes.trim matching (front ++ (middle ++ back)) = middle := by
  have hfront' : ∀ byte ∈ front, (!matching byte) = false := by
    intro byte hm
    rw [hfront byte hm]
    rfl
  have hback' : ∀ byte ∈ back, (!matching byte) = false := by
    intro byte hm
    rw [hback byte hm]
    rfl
  by_cases hnil : middle = []
  · -- where there is no middle, everything matches
    have hnone : (front ++ (middle ++ back)).reverse.findIdx? (fun byte => !matching byte) =
        none := by
      rw [List.findIdx?_eq_none_iff]
      intro byte hm
      rw [hnil, List.mem_reverse, List.nil_append] at hm
      rcases List.mem_append.mp hm with hm | hm
      · exact hfront' byte hm
      · exact hback' byte hm
    rw [trim, trimStop, hnone, slice, Nat.sub_self, List.take_zero, hnil]
  · obtain ⟨first, hfirst⟩ := Option.isSome_iff_exists.mp (List.isSome_head?.mpr hnil)
    have hfinal := List.getLast?_eq_some_getLast hnil
    generalize middle.getLast hnil = final at hfinal
    -- from the front, the first byte of the middle stays
    have hstart : Bytes.trimStart matching (front ++ (middle ++ back)) = front.length := by
      have hhead' : (middle ++ back).head? = some first := by
        rw [List.head?_append, hfirst]
        rfl
      have hzero : (middle ++ back).findIdx (fun byte => !matching byte) = 0 := by
        refine findIdx_eq_zero_of_head? hhead' ?_
        rw [hhead first hfirst]
        rfl
      rw [trimStart, findIdx_append_of_forall hfront', hzero, Nat.add_zero]
    -- from the back, its last byte does
    have hstop : Bytes.trimStop matching (front ++ (middle ++ back)) =
        front.length + middle.length := by
      have hmem : final ∈ front ++ (middle ++ back) :=
        List.mem_append_right _ (List.mem_append_left _ (List.mem_of_getLast? hfinal))
      have hhead' : (middle.reverse ++ front.reverse).head? = some final := by
        rw [List.head?_append, List.head?_reverse, hfinal]
        rfl
      have hzero : (middle.reverse ++ front.reverse).findIdx (fun byte => !matching byte) = 0 := by
        refine findIdx_eq_zero_of_head? hhead' ?_
        rw [hlast final hfinal]
        rfl
      have hreverse : ∀ byte ∈ back.reverse, (!matching byte) = false :=
        fun byte hm => hback' byte (List.mem_reverse.mp hm)
      rw [trimStop_of_mem hmem (hlast final hfinal), List.reverse_append, List.reverse_append,
        List.append_assoc, findIdx_append_of_forall hreverse, hzero]
      simp only [List.length_append, List.length_reverse]
      omega
    rw [trim, hstart, hstop, slice, List.drop_left, Nat.add_sub_cancel_left, List.take_left]

end Bytes

/-! ## Attributes -/

namespace Attribute

/-- The piece of a declaration that an attribute is written as, behind its space: `name="value"`. -/
def piece (attr : Attribute) : Bytes :=
  attr.name ++ Byte.equals :: Byte.quote :: (attr.value ++ [Byte.quote])

theorem written_eq (attr : Attribute) : attr.written = Byte.space :: attr.piece := rfl

/-- A plain attribute is one piece. -/
theorem space_not_mem_piece {attr : Attribute} (h : attr.IsPlain) : Byte.space ∉ attr.piece := by
  have hname := h.space_not_mem_name
  have hvalue := h.space_not_mem_value
  simp [piece, hname, hvalue]
  decide

/-- **A plain attribute is read from its piece**: `ofPiece? attr.piece = some attr`. -/
theorem ofPiece?_piece {attr : Attribute} (h : attr.IsPlain) : ofPiece? attr.piece = some attr := by
  have hright : Byte.equals ∉ Byte.quote :: (attr.value ++ [Byte.quote]) := by
    have hvalue := h.equals_not_mem_value
    simp [hvalue]
    decide
  -- the quotes that are trimmed are the written ones, as the value has none at its ends
  have htrim : Bytes.trim (· == Byte.quote) ([Byte.quote] ++ (attr.value ++ [Byte.quote])) =
      attr.value := by
    refine Bytes.trim_append ?_ ?_ ?_ ?_
    · simp
    · simp
    · intro byte hhead
      rw [beq_eq_false_iff_ne]
      rintro rfl
      exact h.head?_value_ne hhead
    · intro byte hlast
      rw [beq_eq_false_iff_ne]
      rintro rfl
      exact h.getLast?_value_ne hlast
  rw [ofPiece?, piece, Bytes.splitPair?_append_separator h.equals_not_mem_name hright]
  exact congrArg (fun value => some (⟨attr.name, value⟩ : Attribute)) htrim

end Attribute

/-- **Written attributes are cut into their pieces**, behind the name:
`attributes.map Attribute.piece`. -/
theorem pieces_written {name : Bytes} {attributes : List Attribute} (hname : Byte.space ∉ name)
    (hattributes : ∀ attr ∈ attributes, attr.IsPlain) :
    Bytes.pieces Byte.space (name ++ attributes.flatMap Attribute.written) =
      (name, attributes.map Attribute.piece) := by
  induction attributes generalizing name with
  | nil =>
    rw [List.flatMap_nil, List.append_nil, Bytes.pieces_of_not_mem hname]
    rfl
  | cons attr attributes ih =>
    have hattr := hattributes attr List.mem_cons_self
    have hrest := ih (Attribute.space_not_mem_piece hattr)
      fun other hm => hattributes other (List.mem_cons_of_mem _ hm)
    -- the space in front of the attribute ends the name, and its piece is in the place of the name then
    rw [List.flatMap_cons, Attribute.written_eq, List.cons_append,
      Bytes.pieces_append_separator hname, hrest]
    rfl

/-- **Plain attributes are collected**, as long as there is room for them: `list` is `kept` with the
attributes behind it, and `false` says that none is surplus. -/
theorem collect_pieces {attributes : List Attribute} (hattributes : ∀ attr ∈ attributes, attr.IsPlain)
    {kept list : AttributeList} (hlist : list.items = kept.items ++ attributes) :
    Declaration.collect kept (attributes.map Attribute.piece) = (list, false) := by
  induction attributes generalizing kept with
  | nil =>
    rw [List.append_nil] at hlist
    obtain ⟨items, hlength⟩ := list
    obtain ⟨keptItems, hkept⟩ := kept
    obtain rfl : items = keptItems := hlist
    rfl
  | cons attr attributes ih =>
    -- the list holds all of the attributes, so there is room for this one
    have hroom : kept.items.length < AttributeList.capacity := by
      have hlength := list.length_le
      rw [hlist, List.length_append, List.length_cons] at hlength
      omega
    obtain ⟨pushed, hpush⟩ : ∃ pushed, kept.push attr = .ok pushed := by
      unfold AttributeList.push
      rw [dif_pos hroom]
      exact ⟨_, rfl⟩
    have hpushed : list.items = pushed.items ++ attributes := by
      rw [AttributeList.items_push hpush, hlist, List.append_assoc]
      rfl
    have hrest := ih (fun other hm => hattributes other (List.mem_cons_of_mem _ hm)) hpushed
    rw [List.map_cons, Declaration.collect,
      Attribute.ofPiece?_piece (hattributes attr List.mem_cons_self)]
    dsimp only
    rw [hpush]
    exact hrest

/-! ## Declarations -/

namespace Item

variable {name : Bytes} {attributes : AttributeList}

/-- What stands between the brackets of an opening tag, without a slash at the end: the name, and
each attribute behind a space. -/
def inner (name : Bytes) (attributes : AttributeList) : Bytes :=
  name ++ attributes.items.flatMap Attribute.written

theorem opening_eq (name : Bytes) (attributes : AttributeList) :
    opening name attributes = Byte.lessThan :: inner name attributes := rfl

/-- Behind a clear name and any attributes, there is no slash: an attribute ends with its double
quote. -/
theorem getLast?_inner_ne (hname : IsClearName name) (attributes : AttributeList) :
    (inner name attributes).getLast? ≠ some Byte.slash := by
  intro hlast
  rw [inner] at hlast
  rcases List.eq_nil_or_concat attributes.items with hnil | ⟨others, attr, hitems⟩
  · rw [hnil, List.flatMap_nil, List.append_nil] at hlast
    exact hname.not_mem.2.2.2 (List.mem_of_getLast? hlast)
  · -- the last attribute ends with its quote
    have hquote : name ++ attributes.items.flatMap Attribute.written =
        (name ++ others.flatMap Attribute.written ++ Byte.space :: (attr.name ++ Byte.equals ::
          Byte.quote :: attr.value)) ++ [Byte.quote] := by
      rw [hitems]
      simp [Attribute.written]
    rw [hquote, List.getLast?_concat] at hlast
    cases hlast

/-- Clear names and attributes have no `>`. -/
theorem greaterThan_not_mem_inner (hname : IsClearName name) (hlist : IsClearList attributes) :
    Byte.greaterThan ∉ inner name attributes := by
  intro hm
  rcases List.mem_append.mp hm with hm | hm
  · exact hname.not_mem.2.2.1 hm
  · obtain ⟨attr, hattr, hm⟩ := List.mem_flatMap.mp hm
    obtain ⟨-, hnone, hnone'⟩ := hlist attr hattr
    revert hm
    simp [Attribute.written, hnone, hnone']
    decide

/-- The front of a clear opening tag has no `>`. -/
theorem greaterThan_not_mem_opening (hname : IsClearName name) (hlist : IsClearList attributes) :
    Byte.greaterThan ∉ opening name attributes := by
  rw [opening_eq, List.mem_cons, not_or]
  exact ⟨by decide, greaterThan_not_mem_inner hname hlist⟩

/-- The front of a closing tag has no `>` when its name has none. -/
theorem greaterThan_not_mem_closing (hname : Byte.greaterThan ∉ name) :
    Byte.greaterThan ∉ Byte.lessThan :: Byte.slash :: name := by
  rw [List.mem_cons, List.mem_cons, not_or, not_or]
  exact ⟨by decide, by decide, hname⟩

/-- What is left of a text behind its slash decides what it is decoded into: `inner name attributes`
into `⟨name, attributes, closed⟩`. -/
theorem decode_of_stripSlash {overflow : Overflow} {position : Nat} {text : Bytes} {closed : Bool}
    (hname : IsClearName name) (hlist : IsClearList attributes)
    (hstrip : Declaration.stripSlash text = (inner name attributes, closed)) :
    Declaration.decode overflow position text = .quiet (.ok ⟨name, attributes, closed⟩) := by
  have hplain : ∀ attr ∈ attributes.items, attr.IsPlain := fun attr hm => (hlist attr hm).1
  have hpieces : (inner name attributes).pieces Byte.space =
      (name, attributes.items.map Attribute.piece) := pieces_written hname.not_mem.1 hplain
  have hcollect : Declaration.collect .empty (attributes.items.map Attribute.piece) =
      (attributes, false) := collect_pieces hplain rfl
  have hsome : ¬ name.isEmpty = true := by
    rw [List.isEmpty_iff]
    exact hname.ne_nil
  simp only [Declaration.decode, hstrip, hpieces, hcollect, if_neg hsome]

/-- **A written declaration is decoded into itself**, `⟨name, attributes, false⟩`, without a
record. -/
theorem decode_inner (overflow : Overflow) (position : Nat) (hname : IsClearName name)
    (hlist : IsClearList attributes) :
    Declaration.decode overflow position (inner name attributes) =
      .quiet (.ok ⟨name, attributes, false⟩) :=
  decode_of_stripSlash hname hlist (if_neg (getLast?_inner_ne hname attributes))

/-- A written declaration with a slash at its end is decoded into itself, and closes itself:
`⟨name, attributes, true⟩`. -/
theorem decode_inner_slash (overflow : Overflow) (position : Nat) (hname : IsClearName name)
    (hlist : IsClearList attributes) :
    Declaration.decode overflow position (inner name attributes ++ [Byte.slash]) =
      .quiet (.ok ⟨name, attributes, true⟩) := by
  apply decode_of_stripSlash hname hlist
  rw [Declaration.stripSlash, if_pos List.getLast?_concat, List.dropLast_concat]

end Item

/-! ## Tags -/

namespace Cursor

variable {cursor : Cursor} {gap body rest : Bytes}

/-- A cursor that has bytes left has them behind its place. -/
theorem drop_document_of_remaining {front : Bytes} (h : cursor.remaining = front ++ rest) :
    cursor.document.drop (cursor.position + front.length) = rest := by
  rw [← List.drop_drop]
  show List.drop front.length cursor.remaining = rest
  rw [h, List.drop_left]

/-- The first place of a byte behind bytes without it: `start + front.length`. -/
theorem findByteFrom?_of_drop {start : Nat} {byte : UInt8} {front : Bytes}
    (h : cursor.document.drop start = front ++ byte :: rest) (hfront : byte ∉ front) :
    cursor.findByteFrom? start byte = some (start + front.length) := by
  have hindex : Bytes.indexOfByte? (front ++ byte :: rest) byte = some front.length := by
    rw [Bytes.indexOfByte?_eq_some_iff]
    refine ⟨by simp, fun j hj heq => hfront ?_⟩
    rw [List.getElem?_append_left hj] at heq
    exact List.mem_of_getElem? heq
  rw [findByteFrom?, tailFrom, h, hindex]
  rfl

/-- The tag that stands behind a gap, with a body between its brackets: its `<` is `gap.length`
bytes behind the cursor. -/
def tagBehind (cursor : Cursor) (gap body : Bytes) : Tag :=
  ⟨cursor.position + gap.length, cursor.position + gap.length + 1 + body.length⟩

/-- **The next tag** is the first one, `cursor.tagBehind gap body`, when what is left of the
document begins with it. -/
theorem nextTag_of_remaining
    (h : cursor.remaining = gap ++ Byte.lessThan :: (body ++ Byte.greaterThan :: rest))
    (hgap : Byte.lessThan ∉ gap) (hbody : Byte.greaterThan ∉ body) :
    cursor.nextTag = .ok (cursor.tagBehind gap body) := by
  have hdrop := drop_document_of_remaining h
  have hbehind : cursor.document.drop (cursor.position + gap.length + 1) =
      body ++ Byte.greaterThan :: rest := by
    rw [← List.drop_drop, hdrop, List.drop_one, List.tail_cons]
  rw [nextTag_eq_ok_iff]
  exact ⟨findByteFrom?_of_drop h hgap, findByteFrom?_of_drop hbehind hbody⟩

/-- The body of a tag is what stands between its brackets. -/
theorem slice_tagBehind
    (h : cursor.remaining = gap ++ Byte.lessThan :: (body ++ Byte.greaterThan :: rest)) :
    cursor.document.slice ((cursor.tagBehind gap body).start + 1) (cursor.tagBehind gap body).stop =
      body := by
  have hdrop := drop_document_of_remaining h
  rw [Bytes.slice, tagBehind, ← List.drop_drop, hdrop, List.drop_one, List.tail_cons,
    Nat.add_sub_cancel_left, List.take_left]

/-- The first byte of its body says what a tag is, by `TagKind.ofByte?`. -/
theorem kindOf_tagBehind {byte : UInt8}
    (h : cursor.remaining = gap ++ Byte.lessThan :: (body ++ Byte.greaterThan :: rest))
    (hbyte : body.head? = some byte) :
    cursor.kindOf (cursor.tagBehind gap body) = .ofByte? (some byte) := by
  have hdrop := drop_document_of_remaining h
  rw [kindOf, byteAt?, tagBehind, ← List.head?_drop, ← List.drop_drop, hdrop, List.drop_one,
    List.tail_cons, List.head?_append, hbyte]
  rfl

/-- A cursor that passes a tag has the bytes behind it left. -/
theorem remaining_passTag_tagBehind
    (h : cursor.remaining = gap ++ Byte.lessThan :: (body ++ Byte.greaterThan :: rest)) :
    (cursor.passTag (cursor.tagBehind gap body)).remaining = rest ∧
      (cursor.passTag (cursor.tagBehind gap body)).position =
        cursor.position + gap.length + body.length + 2 := by
  have hlength := congrArg List.length h
  rw [length_remaining, remainingLength] at hlength
  simp only [List.length_append, List.length_cons] at hlength
  have hle := cursor.position_le
  -- the tag lies inside the document, so no move is cut short
  have hposition : (cursor.passTag (cursor.tagBehind gap body)).position =
      cursor.position + gap.length + body.length + 2 := by
    show min (cursor.position + gap.length + 1 + body.length + 1) cursor.document.length = _
    omega
  refine ⟨?_, hposition⟩
  have hfront : cursor.remaining = (gap ++ Byte.lessThan :: (body ++ [Byte.greaterThan])) ++ rest := by
    rw [h]
    simp
  have hdrop := drop_document_of_remaining hfront
  rw [remaining, tailFrom, hposition]
  refine Eq.trans (congrArg (fun n => List.drop n cursor.document) ?_) hdrop
  simp only [List.length_append, List.length_cons, List.length_nil]
  omega

end Cursor

/-! ## Closing tags -/

/-- **A needle whose last byte occurs nowhere else in it** does not overlap itself, so it is first
found behind bytes in which it does not occur, at `content.length`. -/
theorem Bytes.indexOf?_append_of_not_mem {front content : Bytes} {final : UInt8}
    (hfinal : final ∉ front) (hnone : content.indexOf? (front ++ [final]) = none) (rest : Bytes) :
    Bytes.indexOf? (content ++ (front ++ [final] ++ rest)) (front ++ [final]) =
      some content.length := by
  rw [indexOf?_eq_some_iff]
  refine ⟨?_, ?_⟩
  · rw [List.drop_left]
    exact List.prefix_append _ _
  · intro j hj hoccurs
    by_cases hfit : j + (front.length + 1) ≤ content.length
    · -- the needle would occur in the content alone
      rw [List.drop_append_of_le_length (Nat.le_of_lt hj)] at hoccurs
      refine indexOf?_eq_none_iff.mp hnone j
        (List.prefix_of_prefix_length_le hoccurs (List.prefix_append _ _) ?_)
      simp only [List.length_append, List.length_singleton, List.length_drop]
      omega
    · -- its last byte would stand inside of the needle behind the content
      obtain ⟨more, hmore⟩ := hoccurs
      have hbyte : (content ++ (front ++ [final] ++ rest))[j + front.length]? = some final := by
        rw [← List.getElem?_drop, ← hmore]
        simp
      rw [List.getElem?_append_right (by omega), List.append_assoc,
        List.getElem?_append_left (by omega)] at hbyte
      exact hfinal (List.mem_of_getElem? hbyte)

/-- The closing tag of a node is the written one of its name, `</name>`. -/
theorem Node.closingTag_eq (node : Node) :
    node.closingTag = (Byte.lessThan :: Byte.slash :: node.name) ++ [Byte.greaterThan] := rfl

namespace Cursor

variable {cursor : Cursor} {node : Node} {content rest : Bytes}

/-- Too long a name is reported when the closing tag is there, but cannot be matched:
`nameTooLong`. -/
theorem closingTagOf_of_long
    (h : cursor.document.drop node.bodyStart = content ++ (node.closingTag ++ rest))
    (hlong : maxNameLength < node.name.length) :
    cursor.closingTagOf node = .error (.nameTooLong node.name.length maxNameLength) := by
  have hroom : ¬ (cursor.tailFrom node.bodyStart).length < node.closingTag.length := by
    rw [tailFrom, h, List.length_append, List.length_append]
    omega
  simp only [closingTagOf, if_neg hroom, if_pos hlong]

/-- **The closing tag of a node** is found behind the content, when it does not occur in it: at
`node.bodyStart + content.length`. -/
theorem closingTagOf_of_drop
    (h : cursor.document.drop node.bodyStart = content ++ (node.closingTag ++ rest))
    (hname : Byte.greaterThan ∉ node.name) (hshort : ¬ maxNameLength < node.name.length)
    (hnone : content.indexOf? node.closingTag = none) :
    cursor.closingTagOf node = .ok (node.bodyStart + content.length) := by
  have hroom : ¬ (cursor.tailFrom node.bodyStart).length < node.closingTag.length := by
    rw [tailFrom, h, List.length_append, List.length_append]
    omega
  have hfront := Item.greaterThan_not_mem_closing hname
  have hfound : cursor.findFrom? node.bodyStart node.closingTag =
      some (node.bodyStart + content.length) := by
    rw [Node.closingTag_eq] at h hnone ⊢
    -- the tag cannot begin in the content and end behind it, as it has only one `>`
    rw [findFrom?, tailFrom, h, Bytes.indexOf?_append_of_not_mem hfront hnone]
    rfl
  simp only [closingTagOf, if_neg hroom, if_neg hshort, hfound]

end Cursor

end TagWalk
