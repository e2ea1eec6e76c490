import TagWalk.Declaration.Written
import TagWalk.Proofs.Decoding

/-! # Reading and writing declarations

Every text that is decoded at all is decoded into a plain declaration: pieces have no spaces, the two
sides of an only `=` have none, and a trimmed value has no quote at its ends. The canonical text of a
plain declaration is cut into just the pieces it was written from, with one empty piece behind them
when it ends with a space.

* **`Declaration.isPlain_of_decode`** — what is decoded is plain.
* **`Declaration.nameIn_written`**, **`Declaration.attributesIn_written`** — what the canonical text
  declares.
* **`decode_written`** — the format of tags round-trips. -/

namespace TagWalk

/-! ## What is decoded is plain -/

/-- **An attribute that is read from one piece is plain**: the piece has no space, its only `=` is
where it is split, and the value is trimmed. -/
theorem Attribute.isPlain_of_ofPiece? {piece : Bytes} {attr : Attribute}
    (hspace : Byte.space ∉ piece) (h : ofPiece? piece = some attr) : attr.IsPlain := by
  obtain ⟨⟨name, value⟩, hsplit, rfl⟩ := Option.map_eq_some_iff.mp h
  obtain ⟨rfl, hname, hvalue⟩ := Bytes.splitPair?_eq_some_iff.mp hsplit
  obtain ⟨-, -, -, -, -, hhead, hlast⟩ := Bytes.exists_trim (· == Byte.quote) value
  refine ⟨?_, hname, ?_, ?_, ?_, ?_⟩
  · exact fun hm => hspace (List.mem_append_left _ hm)
  · intro hm
    exact hspace (List.mem_append_right _ (List.mem_cons_of_mem _ (Bytes.mem_of_mem_trim hm)))
  · exact fun hm => hvalue (Bytes.mem_of_mem_trim hm)
  · exact fun hbyte => by simpa using hhead _ hbyte
  · exact fun hbyte => by simpa using hlast _ hbyte

namespace Declaration

/-- All attributes that a text declares, `attributesIn text`, are plain. -/
theorem isPlain_of_mem_attributesIn {text : Bytes} {attr : Attribute}
    (h : attr ∈ attributesIn text) : attr.IsPlain := by
  obtain ⟨piece, hpiece, hattr⟩ := List.mem_filterMap.mp h
  exact Attribute.isPlain_of_ofPiece? ((Bytes.separator_not_mem_pieces _ _).2 piece hpiece) hattr

/-- **What is decoded is plain**, whatever the text is: `declaration.IsPlain`, which is a condition
on the declaration alone. -/
theorem isPlain_of_decode {overflow : Overflow} {position : Nat} {text : Bytes}
    {declaration : Declaration} (h : (decode overflow position text).result = .ok declaration) :
    declaration.IsPlain := by
  obtain ⟨hname, -, rfl⟩ := result_decode_eq_ok_iff.mp h
  refine ⟨hname, (Bytes.separator_not_mem_pieces _ _).1, fun attr hm => ?_⟩
  exact isPlain_of_mem_attributesIn (List.mem_of_mem_take hm)

/-! ## What is written -/

section Written

variable {declaration : Declaration}

/-- Only a declaration that closes itself is written with a slash at the end. One that does not is
written with a space there, so that a slash at the end of its last value is not taken for one. -/
theorem stripSlash_written (declaration : Declaration) :
    stripSlash declaration.written =
      (if declaration.selfClosing then Item.inner declaration.name declaration.attributes
        else Item.inner declaration.name declaration.attributes ++ [Byte.space],
        declaration.selfClosing) := by
  obtain ⟨name, attributes, selfClosing⟩ := declaration
  cases selfClosing with
  | true =>
    have hwritten : written ⟨name, attributes, true⟩ = Item.inner name attributes ++ [Byte.slash] :=
      rfl
    rw [stripSlash, hwritten, if_pos List.getLast?_concat, List.dropLast_concat]
    rfl
  | false =>
    have hwritten : written ⟨name, attributes, false⟩ = Item.inner name attributes ++ [Byte.space] :=
      rfl
    have hlast : (Item.inner name attributes ++ [Byte.space]).getLast? ≠ some Byte.slash := by
      rw [List.getLast?_concat]
      decide
    rw [stripSlash, hwritten, if_neg hlast]
    rfl

/-- **The canonical text is cut into its pieces**, `Attribute.piece` by `Attribute.piece`, with an
empty one behind a final space. -/
theorem pieces_stripSlash_written (h : declaration.IsPlain) :
    (stripSlash declaration.written).1.pieces Byte.space =
      (declaration.name, declaration.attributes.items.map Attribute.piece ++
        if declaration.selfClosing then [] else [[]]) := by
  have hinner : (Item.inner declaration.name declaration.attributes).pieces Byte.space =
      (declaration.name, declaration.attributes.items.map Attribute.piece) :=
    pieces_written h.space_not_mem_name h.attributes_isPlain
  rw [stripSlash_written]
  cases declaration.selfClosing with
  | true =>
    simp only [if_true, List.append_nil]
    exact hinner
  | false =>
    simp only [Bool.false_eq_true, if_false]
    rw [Bytes.pieces_concat_separator, hinner]

/-- The canonical text declares the name it was written from:
`nameIn declaration.written = declaration.name`. -/
theorem nameIn_written (h : declaration.IsPlain) : nameIn declaration.written = declaration.name := by
  rw [nameIn, pieces_stripSlash_written h]

/-- **The canonical text declares the attributes it was written from**, and no others: the empty
piece behind a final space is no attribute. -/
theorem attributesIn_written (h : declaration.IsPlain) :
    attributesIn declaration.written = declaration.attributes.items := by
  have hpieces : (declaration.attributes.items.map Attribute.piece).filterMap Attribute.ofPiece? =
      declaration.attributes.items := by
    rw [List.filterMap_map]
    calc declaration.attributes.items.filterMap (Attribute.ofPiece? ∘ Attribute.piece)
        = declaration.attributes.items.filterMap some :=
          List.filterMap_congr fun attr hm => Attribute.ofPiece?_piece (h.attributes_isPlain attr hm)
      _ = declaration.attributes.items := List.filterMap_some
  -- an empty piece is no attribute
  have hend : (if declaration.selfClosing then [] else [[]] : List Bytes).filterMap
      Attribute.ofPiece? = [] := by
    split <;> rfl
  rw [attributesIn, pieces_stripSlash_written h, List.filterMap_append, hpieces, hend,
    List.append_nil]

/-- There is room for all of them: an `AttributeList` never holds more than are kept. -/
theorem keptIn_written (h : declaration.IsPlain) :
    keptIn declaration.written = declaration.attributes := by
  obtain ⟨name, ⟨items, hlength⟩, selfClosing⟩ := declaration
  simp only [keptIn, attributesIn_written h, List.take_of_length_le hlength]

end Written

end Declaration

/-- **The format of tags round-trips.** Whatever is decoded is plain. The canonical text
`declaration.written` of a plain declaration is decoded into that declaration, whatever the
treatment of surplus attributes, and without a record: `decode overflow position declaration.written
= .quiet (.ok declaration)`. So what was decoded once is written and decoded again into the same, at
any other `position` and with any other `overflow`. -/
theorem decode_written :
    (∀ overflow position text declaration,
      (Declaration.decode overflow position text).result = .ok declaration →
        declaration.IsPlain) ∧
    (∀ overflow position (declaration : Declaration), declaration.IsPlain →
      Declaration.decode overflow position declaration.written = .quiet (.ok declaration)) ∧
    ∀ overflow overflow' position position' text declaration,
      (Declaration.decode overflow position text).result = .ok declaration →
        Declaration.decode overflow' position' declaration.written = .quiet (.ok declaration) := by
  -- the third part is the second one behind the first
  have hread : ∀ overflow position (declaration : Declaration), declaration.IsPlain →
      Declaration.decode overflow position declaration.written = .quiet (.ok declaration) := by
    intro overflow position declaration h
    have hname : Declaration.nameIn declaration.written ≠ [] := by
      rw [Declaration.nameIn_written h]
      exact h.name_ne_nil
    have hroom : (Declaration.attributesIn declaration.written).length ≤ AttributeList.capacity := by
      rw [Declaration.attributesIn_written h]
      exact declaration.attributes.length_le
    rw [Declaration.decode_of_room hname hroom, Declaration.nameIn_written h,
      Declaration.keptIn_written h, Declaration.stripSlash_written]
  refine ⟨fun _ _ _ _ => Declaration.isPlain_of_decode, hread, ?_⟩
  intro overflow overflow' position position' text declaration h
  exact hread overflow' position' declaration (Declaration.isPlain_of_decode h)

/-- The text `a/  =""" b=""x" c /`, with an attribute that has no name, one that has quotes around its
value, two pieces that are no attributes and a slash behind a space. -/
def oddText : Bytes :=
  [0x61, 0x2F, 0x20, 0x20, 0x3D, 0x22, 0x22, 0x22, 0x20, 0x62, 0x3D, 0x22, 0x22, 0x78, 0x22, 0x20,
    0x63, 0x20, 0x2F]

/-- The declaration of the element `a/` in it. -/
def oddDeclaration : Declaration :=
  ⟨[0x61, 0x2F], ⟨[⟨[], []⟩, ⟨[0x62], [0x78]⟩], by decide⟩, true⟩

/-- It is decoded from that text, and from its canonical text `a/ ="" b="x"/`. -/
theorem decode_written_oddText :
    (Declaration.decode .reject 0 oddText).result = .ok oddDeclaration ∧ oddDeclaration.IsPlain ∧
      Declaration.decode .truncate 7 oddDeclaration.written = .quiet (.ok oddDeclaration) := by
  have hdecode : (Declaration.decode .reject 0 oddText).result = .ok oddDeclaration := by decide
  obtain ⟨hplain, -, hagain⟩ := decode_written
  exact ⟨hdecode, hplain _ _ _ _ hdecode, hagain _ _ _ _ _ _ hdecode⟩

end TagWalk
