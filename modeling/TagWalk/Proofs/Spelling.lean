import TagWalk.Node
import TagWalk.Proofs.Decoding

/-! # What a declaration's text spells

The text of a declaration is told here by what it is made of: pieces without a space, with one space
between each of them and the next, and at the end perhaps a slash. The first piece is the name, and each
other piece that has one `=` is an attribute. Against this stands the decoder, which cuts, splits, trims
and collects, and stops at the first attribute without room.

* **`Declaration.IsCut`** — a name and pieces, with the text that is made of them.
* **`Attribute.spelled?`** — the attribute that a piece spells.
* **`Attribute.ofPiece?_eq_spelled?`**, **`Declaration.IsCut.nameIn_eq`**,
  **`Declaration.IsCut.attributesIn_eq`** — cutting, splitting and trimming find what was spelled.
* **`Declaration.decode_spelled`** — what comes of a text, attribute by attribute. -/

namespace TagWalk

namespace Bytes

/-! ## Cutting and splitting -/

/-- **The pieces of bytes** are the lists between separators: `bytes.splitOn separator`, of which
there is always a first one. -/
theorem pieces_eq_splitOn (separator : UInt8) (bytes : Bytes) :
    (bytes.pieces separator).1 :: (bytes.pieces separator).2 = bytes.splitOn separator := by
  induction bytes with
  | nil => rfl
  | cons byte rest ih =>
    rw [List.splitOn_cons_eq_if_modifyHead, ← ih]
    by_cases hbyte : byte = separator
    · subst hbyte
      simp
    · rw [pieces_cons_of_ne hbyte]
      simp [hbyte]

/-- Bytes with one separator are its two sides, and no others are: `bytes.count separator = 1`
decides. -/
theorem splitPair?_eq_of_count (bytes : Bytes) (separator : UInt8) :
    bytes.splitPair? separator =
      if bytes.count separator = 1 then
        some (bytes.takeWhile (· != separator), (bytes.dropWhile (· != separator)).tail)
      else none := by
  by_cases hcount : bytes.count separator = 1
  · rw [if_pos hcount, splitPair?_eq_some_iff]
    have hmem : separator ∈ bytes := List.count_pos_iff.mp (by omega)
    obtain ⟨left, right, hsplit, hleft⟩ := List.eq_append_cons_of_mem hmem
    subst hsplit
    -- one separator is counted already, so none is left for the other side
    have hright : separator ∉ right := by
      rw [List.count_append, List.count_cons_self, List.count_eq_zero_of_not_mem hleft] at hcount
      apply List.count_eq_zero.mp
      omega
    have hall : ∀ byte ∈ left, (byte != separator) = true := by
      intro byte hm
      rw [bne_iff_ne]
      rintro rfl
      exact hleft hm
    rw [List.takeWhile_append_of_pos hall, List.dropWhile_append_of_pos hall]
    simp [hleft, hright]
  · rw [if_neg hcount]
    cases hsplit : bytes.splitPair? separator with
    | none => rfl
    | some sides =>
      obtain ⟨left, right⟩ := sides
      obtain ⟨rfl, hleft, hright⟩ := splitPair?_eq_some_iff.mp hsplit
      refine absurd ?_ hcount
      rw [List.count_append, List.count_cons_self, List.count_eq_zero_of_not_mem hleft,
        List.count_eq_zero_of_not_mem hright]

end Bytes

/-! ## Attributes -/

/-- **The attribute that a piece spells**: the bytes in front of its only `=`, and the bytes behind
it without the double quotes at either end. A piece with no `=`, or with more than one, spells
none. -/
def Attribute.spelled? (piece : Bytes) : Option Attribute :=
  if piece.count Byte.equals = 1 then
    some {
      name := piece.takeWhile (· != Byte.equals)
      value := ((piece.dropWhile (· != Byte.equals)).tail.dropWhile (· == Byte.quote)).rdropWhile
        (· == Byte.quote) }
  else none

/-- The attribute of a piece is the one that it spells: the scans of `ofPiece?` come to `takeWhile`,
`dropWhile` and `rdropWhile`. -/
theorem Attribute.ofPiece?_eq_spelled? (piece : Bytes) : ofPiece? piece = spelled? piece := by
  rw [ofPiece?, spelled?, Bytes.splitPair?_eq_of_count]
  by_cases hcount : piece.count Byte.equals = 1
  · rw [if_pos hcount, if_pos hcount, Option.map_some]
    dsimp only
    rw [Bytes.trim_eq_rdropWhile]
  · rw [if_neg hcount, if_neg hcount, Option.map_none]

/-- **The value of an attribute of a node** is that of the first one of its name:
`items = front ++ ⟨key, value⟩ :: back`, with no `key` in `front`. -/
theorem Node.attribute?_eq_some_iff {node : Node} {key value : Bytes} :
    node.attribute? key = some value ↔
      ∃ front back, node.attributes.items = front ++ ⟨key, value⟩ :: back ∧
        ∀ other ∈ front, other.name ≠ key := by
  rw [attribute?, Option.map_eq_some_iff]
  simp only [AttributeList.get?_eq_some_iff]
  constructor
  · rintro ⟨⟨name, value⟩, ⟨rfl, front, back, hitems, hfront⟩, rfl⟩
    exact ⟨front, back, hitems, hfront⟩
  · rintro ⟨front, back, hitems, hfront⟩
    exact ⟨⟨key, value⟩, ⟨rfl, front, back, hitems, hfront⟩, rfl⟩

namespace Declaration

variable {text name : Bytes} {pieces : List Bytes} {closed : Bool}

/-! ## Texts -/

/-- **A text is cut into a name and pieces** behind it: their `intercalate` with spaces is the text,
but for a slash at its end. -/
structure IsCut (text : Bytes) (closed : Bool) (name : Bytes) (pieces : List Bytes) : Prop where
  /-- One space stands between each of them and the next, and one slash may follow. -/
  text_eq : text = [Byte.space].intercalate (name :: pieces) ++ if closed then [Byte.slash] else []
  /-- The slash is the one at the end of the text, if it ends with one. -/
  closed_iff : closed = true ↔ text.getLast? = some Byte.slash
  /-- There are no other spaces. -/
  space_not_mem : ∀ piece ∈ name :: pieces, Byte.space ∉ piece

namespace IsCut

/-- The slash is the one that is taken off: the name and the pieces stay, with a space between each
and the next. -/
theorem stripSlash_eq (h : IsCut text closed name pieces) :
    stripSlash text = ([Byte.space].intercalate (name :: pieces), closed) := by
  have htext := h.text_eq
  unfold stripSlash
  by_cases hclosed : closed = true
  · rw [if_pos (h.closed_iff.mp hclosed)]
    subst hclosed
    rw [htext, if_pos rfl, List.dropLast_concat]
  · rw [if_neg (fun hslash => hclosed (h.closed_iff.mpr hslash))]
    obtain rfl : closed = false := Bool.eq_false_iff.mpr hclosed
    rw [htext, if_neg Bool.false_ne_true, List.append_nil]

/-- Cutting finds the pieces, `(name, pieces)`. -/
theorem pieces_stripSlash_eq (h : IsCut text closed name pieces) :
    (stripSlash text).1.pieces Byte.space = (name, pieces) := by
  have hcut := Bytes.pieces_eq_splitOn Byte.space (stripSlash text).1
  rw [h.stripSlash_eq, List.splitOn_intercalate Byte.space h.space_not_mem (List.cons_ne_nil _ _)]
    at hcut
  rw [h.stripSlash_eq]
  obtain ⟨hname, hpieces⟩ := List.cons.inj hcut
  exact Prod.ext hname hpieces

/-- The name that is read is the one that was spelled. -/
theorem nameIn_eq (h : IsCut text closed name pieces) : nameIn text = name := by
  rw [nameIn, h.pieces_stripSlash_eq]

/-- So are the attributes, `pieces.filterMap Attribute.spelled?`: a piece that spells none is passed
over. -/
theorem attributesIn_eq (h : IsCut text closed name pieces) :
    attributesIn text = pieces.filterMap Attribute.spelled? := by
  rw [attributesIn, h.pieces_stripSlash_eq]
  exact List.filterMap_congr fun piece _ => Attribute.ofPiece?_eq_spelled? piece

end IsCut

/-- **Every text is cut in some way**, the empty one into an empty name and no pieces. -/
theorem exists_isCut (text : Bytes) : ∃ closed name pieces, IsCut text closed name pieces := by
  have hclear := Bytes.separator_not_mem_pieces Byte.space (stripSlash text).1
  have hcut := Bytes.pieces_eq_splitOn Byte.space (stripSlash text).1
  have hinner : (stripSlash text).1 = [Byte.space].intercalate
      (((stripSlash text).1.pieces Byte.space).1 :: ((stripSlash text).1.pieces Byte.space).2) := by
    rw [hcut, List.intercalate_splitOn]
  refine ⟨(stripSlash text).2, _, _, ?_, ?_, List.forall_mem_cons.mpr hclear⟩
  · rw [← hinner]
    unfold stripSlash
    split
    · rename_i hslash
      exact (List.dropLast_append_getLast? _ hslash).symm
    · exact (List.append_nil text).symm
  · unfold stripSlash
    split
    · rename_i hslash
      simp [hslash]
    · rename_i hslash
      simp [hslash]

/-! ## What comes of a text -/

/-- **One record is made, and only when surplus attributes are dropped**:
`.truncatingAttributes (nameIn text)`, where there is a name, `overflow = .truncate` and more
attributes than `AttributeList.capacity`. -/
theorem log_decode (overflow : Overflow) (position : Nat) (text : Bytes) :
    (decode overflow position text).log =
      if nameIn text ≠ [] ∧ overflow = .truncate ∧
          AttributeList.capacity < (attributesIn text).length then
        [.truncatingAttributes (nameIn text)]
      else [] := by
  by_cases hname : nameIn text = []
  · rw [decode_of_nameless hname, if_neg (fun h => h.1 hname)]
    rfl
  · by_cases hroom : (attributesIn text).length ≤ AttributeList.capacity
    · rw [decode_of_room hname hroom, if_neg (fun h => Nat.not_lt.mpr hroom h.2.2)]
      rfl
    · have hsurplus := Nat.not_le.mp hroom
      obtain ⟨htruncate, hreject⟩ := decode_of_surplus position hname hsurplus
      cases overflow with
      | truncate => rw [htruncate, if_pos ⟨hname, rfl, hsurplus⟩]
      | reject => rw [hreject, if_neg (fun h => nomatch h.2.1)]; rfl

/-- **What decoding comes to**, where a text spells a `name` and the attributes `spelled`, and a
slash or none follows. -/
structure IsDecoded (overflow : Overflow) (position : Nat) (closed : Bool) (name : Bytes)
    (spelled : List Attribute) (decoded : Logged Declaration) : Prop where
  /-- A text without a name is reported, and no other text is reported so. -/
  nameless_iff : decoded.result = .error (.emptyDeclaration position) ↔ name = []
  /-- With a name, more than ten attributes are reported where none may be dropped. -/
  surplus_iff : name ≠ [] →
    (decoded.result = .error (.tooManyAttributes (Utf8.lossy name) 10) ↔
      overflow = .reject ∧ 10 < spelled.length)
  /-- Otherwise there is a declaration: the name, the slash, and the first ten attributes in their
  order. A name that occurs more than once among them has its first value. -/
  declared : name ≠ [] → ¬ (overflow = .reject ∧ 10 < spelled.length) →
    ∃ declaration, decoded.result = .ok declaration ∧ declaration.name = name ∧
      declaration.selfClosing = closed ∧ declaration.attributes.items = spelled.take 10 ∧
      ∀ bodyStart key value, (Node.mk declaration bodyStart).attribute? key = some value ↔
        ∃ front back, spelled.take 10 = front ++ ⟨key, value⟩ :: back ∧
          ∀ other ∈ front, other.name ≠ key
  /-- The dropping of attributes is logged, once, and nothing else is. -/
  log_eq : decoded.log =
    if name ≠ [] ∧ overflow = .truncate ∧ 10 < spelled.length then [.truncatingAttributes name] else []

/-- **What is decoded is what was spelled**: `IsDecoded` holds of `decode overflow position text`,
with the attributes `pieces.filterMap Attribute.spelled?`. -/
theorem IsCut.isDecoded (h : IsCut text closed name pieces) (overflow : Overflow) (position : Nat) :
    IsDecoded overflow position closed name (pieces.filterMap Attribute.spelled?)
      (decode overflow position text) where
  nameless_iff := by
    rw [result_decode_eq_error_iff, h.nameIn_eq]
    constructor
    · rintro (⟨hname, -⟩ | ⟨-, -, -, hfault⟩)
      · exact hname
      · cases hfault
    · intro hname
      exact .inl ⟨hname, rfl⟩
  surplus_iff := by
    intro hname
    rw [result_decode_eq_error_iff, h.nameIn_eq, h.attributesIn_eq]
    constructor
    · rintro (⟨hempty, -⟩ | ⟨-, hreject, hsurplus, -⟩)
      · exact absurd hempty hname
      · exact ⟨hreject, hsurplus⟩
    · rintro ⟨hreject, hsurplus⟩
      exact .inr ⟨hname, hreject, hsurplus, rfl⟩
  declared := by
    intro hname hkept
    have hroom : overflow = .reject → (attributesIn text).length ≤ AttributeList.capacity := by
      intro hreject
      rw [h.attributesIn_eq]
      exact Nat.not_lt.mp fun hsurplus => hkept ⟨hreject, hsurplus⟩
    have hitems : (keptIn text).items = (pieces.filterMap Attribute.spelled?).take 10 := by
      rw [← h.attributesIn_eq]
      rfl
    refine ⟨⟨nameIn text, keptIn text, (stripSlash text).2⟩, ?_, h.nameIn_eq, ?_, hitems, ?_⟩
    · rw [← h.nameIn_eq] at hname
      exact result_decode_eq_ok_iff.mpr ⟨hname, hroom, rfl⟩
    · rw [h.stripSlash_eq]
    · intro bodyStart key value
      rw [Node.attribute?_eq_some_iff, ← hitems]
  log_eq := by
    rw [log_decode, h.nameIn_eq, h.attributesIn_eq]
    rfl

/-- **Decoding meets its specification on every text**, wherever the text stands and whatever
happens to surplus attributes. Every text can be cut at its spaces, behind a slash at its end is
taken off, `IsCut text closed name pieces`; and however it is cut, what is decoded is what the
pieces spell, `pieces.filterMap Attribute.spelled?`: a missing name is reported, and otherwise more
than ten attributes where none may be dropped, no matter which pieces that spell none lie between
them; in all other cases the declaration has the name and the first ten attributes, as `IsDecoded`
says. -/
theorem decode_spelled (overflow : Overflow) (position : Nat) (text : Bytes) :
    (∃ closed name pieces, IsCut text closed name pieces) ∧
      ∀ closed name pieces, IsCut text closed name pieces →
        IsDecoded overflow position closed name (pieces.filterMap Attribute.spelled?)
          (decode overflow position text) := by
  refine ⟨exists_isCut text, ?_⟩
  intro closed name pieces hcut
  exact hcut.isDecoded overflow position

/-- The text `a b=1  c b="2" d=x=y/`: two attributes of the same name, and three pieces that spell
none. -/
def textWithGaps : Bytes :=
  [0x61, 0x20, 0x62, 0x3D, 0x31, 0x20, 0x20, 0x63, 0x20, 0x62, 0x3D, 0x22, 0x32, 0x22, 0x20, 0x64, 0x3D,
    0x78, 0x3D, 0x79, 0x2F]

/-- The value of `b` is that of the first one. -/
theorem decode_spelled_textWithGaps :
    IsCut textWithGaps true [0x61]
        [[0x62, 0x3D, 0x31], [], [0x63], [0x62, 0x3D, 0x22, 0x32, 0x22], [0x64, 0x3D, 0x78, 0x3D, 0x79]] ∧
      ∃ declaration, (decode .reject 0 textWithGaps).result = .ok declaration ∧
        declaration.name = [0x61] ∧ declaration.selfClosing = true ∧
        declaration.attributes.items = [⟨[0x62], [0x31]⟩, ⟨[0x62], [0x32]⟩] ∧
        (Node.mk declaration 23).attribute? [0x62] = some [0x31] := by
  have hcut : IsCut textWithGaps true [0x61]
      [[0x62, 0x3D, 0x31], [], [0x63], [0x62, 0x3D, 0x22, 0x32, 0x22],
        [0x64, 0x3D, 0x78, 0x3D, 0x79]] := ⟨by decide, by decide, by decide⟩
  obtain ⟨-, hall⟩ := decode_spelled .reject 0 textWithGaps
  obtain ⟨declaration, hresult, hname, hclosed, hitems, hvalue⟩ :=
    (hall _ _ _ hcut).declared (by decide) (by decide)
  refine ⟨hcut, declaration, hresult, hname, hclosed, hitems.trans (by decide), ?_⟩
  exact (hvalue 23 [0x62] [0x31]).mpr ⟨[], [⟨[0x62], [0x32]⟩], by decide, by decide⟩

end Declaration

end TagWalk
