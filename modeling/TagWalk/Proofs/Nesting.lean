import TagWalk.Proofs.Written
import TagWalk.TreeWalk

/-! # Closing tags inside of elements

A search for a closing tag compares bytes, while a tree knows its tags. A closing tag has one `<` and
one `>`, so wherever it occurs among written items, it is the end of a single tag: text has no `<`,
and the `>` of a tag is the first one behind its `<`.

* **`Bytes.infix_append_final_iff`** — where a needle occurs that ends like the bytes in front.
* **`Item.closing_infix_render_iff`** — where a closing tag occurs in a written item.
* **`Item.closesEarly_iff`** — what the tags of items say about their bytes. -/

namespace TagWalk

namespace Bytes

/-- A needle is found exactly where it occurs, `needle <:+: bytes`. -/
theorem isSome_indexOf?_iff {bytes needle : Bytes} :
    (bytes.indexOf? needle).isSome = true ↔ needle <:+: bytes := by
  constructor
  · intro h
    obtain ⟨i, hi⟩ := Option.isSome_iff_exists.mp h
    obtain ⟨hoccurs, -⟩ := indexOf?_eq_some_iff.mp hi
    exact hoccurs.isInfix.trans (List.drop_suffix i bytes).isInfix
  · rintro ⟨front, rest, h⟩
    -- a search that finds nothing would have looked behind `front` as well
    by_contra hnone
    rw [Option.not_isSome_iff_eq_none, indexOf?_eq_none_iff] at hnone
    apply hnone front.length
    rw [← h, List.append_assoc, List.drop_left]
    exact List.prefix_append needle rest

/-- Bytes without the first byte of a needle are passed in front of it: it occurs in `gap ++ rest`
exactly when it occurs in `rest`. -/
theorem infix_append_of_not_mem {first : UInt8} {needle gap : Bytes} (hgap : first ∉ gap)
    (rest : Bytes) : first :: needle <:+: gap ++ rest ↔ first :: needle <:+: rest := by
  induction gap with
  | nil => rw [List.nil_append]
  | cons byte gap ih =>
    rw [List.cons_append, List.infix_cons_iff, ih (List.not_mem_of_not_mem_cons hgap)]
    constructor
    · rintro (hfront | hrest)
      · exact absurd (List.cons_prefix_cons.mp hfront).1 (List.ne_of_not_mem_cons hgap)
      · exact hrest
    · exact .inr

/-- Two fronts that end before the first place of a byte are the same: from
`front ++ final :: rest = other ++ final :: more` it follows that `front = other`. -/
theorem eq_of_append_cons_eq {front other rest more : Bytes} {final : UInt8} (hfront : final ∉ front)
    (hother : final ∉ other) (h : front ++ final :: rest = other ++ final :: more) :
    front = other := by
  induction front generalizing other with
  | nil =>
    cases other with
    | nil => rfl
    | cons byte other =>
      obtain ⟨rfl, -⟩ := List.cons.inj h
      exact absurd List.mem_cons_self hother
  | cons byte front ih =>
    cases other with
    | nil =>
      obtain ⟨rfl, -⟩ := List.cons.inj h
      exact absurd List.mem_cons_self hfront
    | cons byte' other =>
      obtain ⟨rfl, htail⟩ := List.cons.inj h
      rw [ih (fun hm => hfront (List.mem_cons_of_mem _ hm))
        (fun hm => hother (List.mem_cons_of_mem _ hm)) htail]

/-- Bytes are cut at the first place of a byte in one way only, into `front` and `rest`. -/
theorem append_cons_inj {front other rest more : Bytes} {final : UInt8}
    (hfront : final ∉ front) (hother : final ∉ other)
    (h : front ++ final :: rest = other ++ final :: more) : front = other ∧ rest = more := by
  obtain rfl := eq_of_append_cons_eq hfront hother h
  rw [List.append_cancel_left_eq, List.cons.injEq] at h
  exact ⟨rfl, h.2⟩

/-- **A needle whose last byte occurs nowhere else in it** ends where the bytes in front have that
byte first, as an end of `body ++ [final]`, or it occurs behind them. -/
theorem infix_append_final_iff {needle body : Bytes} {final : UInt8} (hneedle : final ∉ needle)
    (hbody : final ∉ body) (rest : Bytes) :
    needle ++ [final] <:+: body ++ [final] ++ rest ↔
      needle ++ [final] <:+ body ++ [final] ∨ needle ++ [final] <:+: rest := by
  constructor
  · rintro ⟨front, more, h⟩
    rw [List.append_assoc, List.append_assoc, List.append_assoc, List.append_eq_append_iff] at h
    rcases h with ⟨part, hpart, h⟩ | ⟨part, hpart, h⟩
    · -- the needle begins in the body, and both end with the same byte
      rw [hpart] at hbody
      have heq : needle = part := eq_of_append_cons_eq hneedle
        (fun hm => hbody (List.mem_append_right _ hm)) h
      left
      exact ⟨front, by rw [hpart, heq, List.append_assoc]⟩
    · cases part with
      | nil =>
        -- the needle begins with the last byte of the front, so it is that byte
        have heq : [] = needle := eq_of_append_cons_eq List.not_mem_nil hneedle h
        left
        rw [← heq]
        exact List.suffix_append body [final]
      | cons byte part =>
        obtain ⟨rfl, htail⟩ := List.cons.inj h
        have hrest : rest = part ++ (needle ++ ([final] ++ more)) := htail
        right
        exact ⟨part, more, by rw [hrest, List.append_assoc, List.append_assoc]⟩
  · rintro (hsuffix | hinfix)
    · exact List.infix_append_of_infix_left hsuffix.isInfix
    · exact List.infix_append_of_infix_right hinfix

end Bytes

namespace Item

variable {name : Bytes}

/-- The closing tag of a clear name ends where a tag ends,
`closing name <:+ body ++ [Byte.greaterThan]`, or occurs behind the tag. -/
theorem closing_infix_tag_iff (hname : IsClearName name) {body : Bytes}
    (hbody : Byte.greaterThan ∉ body) (rest : Bytes) :
    closing name <:+: body ++ [Byte.greaterThan] ++ rest ↔
      closing name <:+ body ++ [Byte.greaterThan] ∨ closing name <:+: rest :=
  Bytes.infix_append_final_iff (greaterThan_not_mem_closing hname.not_mem.2.2.1) hbody rest

mutual

/-- **The closing tag of a clear name in a written item** is the end of one of its tags,
`closing name <:+ tag` for some `tag ∈ item.tags`, or occurs behind the item. -/
theorem closing_infix_render_iff (hname : IsClearName name) (item : Item) (hitem : item.WellFormed)
    (rest : Bytes) :
    closing name <:+: item.render ++ rest ↔
      (∃ tag ∈ item.tags, closing name <:+ tag) ∨ closing name <:+: rest := by
  match item with
  | text bytes =>
    rw [render, tags, closing, Bytes.infix_append_of_not_mem hitem]
    simp
  | markup mark content =>
    obtain ⟨hmark, hcontent⟩ := hitem
    have hbody : Byte.greaterThan ∉ Byte.lessThan :: mark :: content := by
      rw [List.mem_cons, List.mem_cons, not_or, not_or]
      refine ⟨by decide, ?_, hcontent⟩
      rcases hmark with rfl | rfl
      · decide
      · decide
    have htag := closing_infix_tag_iff hname hbody rest
    rw [render, tags]
    simpa using htag
  | empty other attributes =>
    obtain ⟨hother, hlist⟩ := hitem
    have hbody : Byte.greaterThan ∉ opening other attributes ++ [Byte.slash] :=
      List.not_mem_append (greaterThan_not_mem_opening hother hlist) (by decide)
    have htag := closing_infix_tag_iff hname hbody rest
    rw [render, tags]
    simpa using htag
  | element other attributes items =>
    obtain ⟨hother, hlist, hitems⟩ := hitem
    -- an element is its opening tag, its items and its closing tag, one behind the other
    have hsplit : (element other attributes items).render ++ rest =
        opening other attributes ++ [Byte.greaterThan] ++
          (renderAll items ++ (closing other ++ rest)) := by
      rw [render]
      simp
    have hlast : closing name <:+: closing other ++ rest ↔
        closing name <:+ closing other ∨ closing name <:+: rest :=
      closing_infix_tag_iff hname (greaterThan_not_mem_closing hother.not_mem.2.2.1) rest
    rw [hsplit, closing_infix_tag_iff hname (greaterThan_not_mem_opening hother hlist),
      closing_infix_renderAll_iff hname items hitems, hlast, tags]
    simp only [List.mem_cons, List.mem_append, List.not_mem_nil, or_false, or_and_right, exists_or,
      exists_eq_left, or_assoc]

/-- **The closing tag of a clear name in written items** is the end of one of their tags,
`tagsAll items`, or occurs behind the last item. -/
theorem closing_infix_renderAll_iff (hname : IsClearName name) (items : List Item)
    (hitems : WellFormedAll items) (rest : Bytes) :
    closing name <:+: renderAll items ++ rest ↔
      (∃ tag ∈ tagsAll items, closing name <:+ tag) ∨ closing name <:+: rest := by
  match items with
  | [] =>
    rw [renderAll, tagsAll]
    simp
  | item :: items =>
    obtain ⟨hitem, hitems⟩ := hitems
    rw [renderAll, tagsAll, List.append_assoc, closing_infix_render_iff hname item hitem,
      closing_infix_renderAll_iff hname items hitems, ← or_assoc]
    simp only [List.mem_append, or_and_right, exists_or]

end

/-- **A closing tag occurs among written items** exactly when one of their tags ends like it:
`closesEarly name items`, which looks at each tag by itself, says whether a search through
`renderAll items` finds one. -/
theorem closesEarly_iff (hname : IsClearName name) {items : List Item}
    (hitems : WellFormedAll items) :
    closesEarly name items = true ↔ closing name <:+: renderAll items := by
  have hiff := closing_infix_renderAll_iff hname items hitems []
  have hnone : ¬ closing name <:+: [] := by
    simp [closing]
  rw [List.append_nil] at hiff
  rw [hiff, closesEarly, List.any_eq_true]
  simp [hnone]

end Item

end TagWalk
