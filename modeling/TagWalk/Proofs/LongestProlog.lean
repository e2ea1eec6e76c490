import Mathlib.Data.Nat.Find
import TagWalk.Proofs.Decoding
import TagWalk.Proofs.Nesting
import TagWalk.Proofs.Shift

/-! # Behind the longest prolog

Every document has a longest front that is a prolog, and what stands behind it decides how a parse goes
that does nothing with the root element. Nothing may be left, or no `<`, or no `>` behind the first `<`;
otherwise there is a first tag, and it is no declaration. The parse knows nothing of fronts: it looks for
one tag after another, and stops at the first one that is no declaration.

* **`LongestProlog`** — a document is cut behind its longest prolog.
* **`longestProlog_iff`** — what stands behind it begins with no block.
* **`RestOutcome`**, **`TagOutcome`** — what the parse comes to, case by case.
* **`Policy.restOutcome_tour`** — one of the cases holds.
* **`parse_letGo`** — which of them it is, on every document. -/

namespace TagWalk

/-! ## Prologs as bytes -/

/-- **Bytes are a prolog** when they are blocks, one behind the other:
`PrologBlock.renderAll blocks`. -/
def Bytes.IsProlog (bytes : Bytes) : Prop := ∃ blocks, bytes = PrologBlock.renderAll blocks

/-- **A document is cut behind its longest prolog**: `document = prolog ++ rest`, and no front of
the document that is a prolog is longer. -/
structure LongestProlog (document prolog rest : Bytes) : Prop where
  /-- The prolog comes first, and then the rest. -/
  document_eq : document = prolog ++ rest
  /-- It is a prolog. -/
  isProlog : prolog.IsProlog
  /-- No front of the document that is a prolog is longer. -/
  longest : ∀ other : Bytes, other.IsProlog → other <+: document → other.length ≤ prolog.length

namespace PrologBlock

/-- Blocks behind other blocks. -/
theorem renderAll_append (blocks more : List PrologBlock) :
    renderAll (blocks ++ more) = renderAll blocks ++ renderAll more := by
  simp [renderAll]

/-- **The first block of bytes is determined by them**: it ends with the first `>` behind the first
`<`, so `block.render = other.render`. -/
theorem render_eq_of_append_eq {block other : PrologBlock} {rest more : Bytes}
    (h : block.render ++ rest = other.render ++ more) : block.render = other.render := by
  simp only [render, List.append_assoc, List.cons_append, List.nil_append] at h
  obtain ⟨htext, htag⟩ := Bytes.append_cons_inj block.text_clear other.text_clear h
  have hinner : block.mark :: block.content = other.mark :: other.content :=
    (Bytes.append_cons_inj block.greaterThan_not_mem other.greaterThan_not_mem htag).1
  obtain ⟨hmark, hcontent⟩ := List.cons.inj hinner
  rw [render, render, htext, hmark, hcontent]

/-- No block stands where the first tag is no declaration, that is where the byte behind the first
`<` is neither `?` nor `!`. -/
theorem append_ne_render_append {text behind : Bytes} {byte : UInt8} (htext : Byte.lessThan ∉ text)
    (hbyte : ¬ (byte = Byte.question ∨ byte = Byte.bang)) (block : PrologBlock) (after : Bytes) :
    text ++ Byte.lessThan :: byte :: behind ≠ block.render ++ after := by
  intro h
  simp only [render, List.append_assoc, List.cons_append, List.nil_append] at h
  obtain ⟨-, htag⟩ := Bytes.append_cons_inj htext block.text_clear h
  obtain ⟨rfl, -⟩ := List.cons.inj htag
  exact hbyte block.mark_eq

end PrologBlock

/-- No bytes are a prolog. -/
theorem Bytes.isProlog_nil : Bytes.IsProlog [] := ⟨[], rfl⟩

/-- A prolog goes on with a block: `bytes ++ block.render` is one as well. -/
theorem Bytes.IsProlog.append_render {bytes : Bytes} (h : bytes.IsProlog) (block : PrologBlock) :
    Bytes.IsProlog (bytes ++ block.render) := by
  obtain ⟨blocks, rfl⟩ := h
  refine ⟨blocks ++ [block], ?_⟩
  rw [PrologBlock.renderAll_append, PrologBlock.renderAll_cons, PrologBlock.renderAll_nil,
    List.append_nil]

/-- **Blocks in front of bytes that begin with none** are as long as any blocks there, by induction on
them. -/
theorem length_renderAll_le {rest : Bytes}
    (hrest : ∀ (block : PrologBlock) after, rest ≠ block.render ++ after)
    (blocks others : List PrologBlock)
    (h : PrologBlock.renderAll others <+: PrologBlock.renderAll blocks ++ rest) :
    (PrologBlock.renderAll others).length ≤ (PrologBlock.renderAll blocks).length := by
  induction blocks generalizing others with
  | nil =>
    cases others with
    | nil => exact Nat.le_refl _
    | cons other others =>
      obtain ⟨more, hmore⟩ := h
      rw [PrologBlock.renderAll_cons, List.append_assoc] at hmore
      exact absurd hmore.symm (hrest other _)
  | cons block blocks ih =>
    cases others with
    | nil => exact Nat.zero_le _
    | cons other others =>
      -- both begin with the same block
      obtain ⟨more, hmore⟩ := h
      simp only [PrologBlock.renderAll_cons, List.append_assoc] at hmore
      have hsame := PrologBlock.render_eq_of_append_eq hmore
      rw [hsame, List.append_cancel_left_eq] at hmore
      have hle := ih others ⟨more, hmore⟩
      simp only [PrologBlock.renderAll_cons, List.length_append, hsame]
      omega

/-- **The longest prolog is the one that no block follows**: `rest ≠ block.render ++ after`,
whatever the block. -/
theorem longestProlog_iff {document prolog rest : Bytes} :
    LongestProlog document prolog rest ↔
      document = prolog ++ rest ∧ prolog.IsProlog ∧
        ∀ (block : PrologBlock) after, rest ≠ block.render ++ after := by
  constructor
  · -- a block behind the prolog would make a longer one
    intro h
    refine ⟨h.document_eq, h.isProlog, ?_⟩
    intro block after hrest
    have hfront : prolog ++ block.render <+: document := by
      rw [h.document_eq, hrest, ← List.append_assoc]
      exact List.prefix_append _ _
    have hle := h.longest _ (h.isProlog.append_render block) hfront
    simp only [PrologBlock.render, List.length_append, List.length_cons] at hle
    omega
  · rintro ⟨rfl, ⟨blocks, rfl⟩, hrest⟩
    refine ⟨rfl, ⟨blocks, rfl⟩, ?_⟩
    rintro other ⟨others, rfl⟩ hfront
    exact length_renderAll_le hrest blocks others hfront

namespace LongestProlog

variable {document prolog rest : Bytes}

/-- **There is a longest prolog**: among the fronts of a document, the empty one is a prolog, and
lengths are bounded by `document.length`. -/
theorem exists_longest (document : Bytes) : ∃ prolog rest, LongestProlog document prolog rest := by
  classical
  have hnil : Bytes.IsProlog (document.take 0) := Bytes.isProlog_nil
  have hspec := Nat.findGreatest_spec (P := fun n => Bytes.IsProlog (document.take n))
    (Nat.zero_le document.length) hnil
  refine ⟨_, _, (List.take_append_drop _ document).symm, hspec, ?_⟩
  intro other hother hfront
  have hlength := hfront.length_le
  rw [List.prefix_iff_eq_take.mp hfront] at hother
  -- another front of the document is told by its length
  have hgreatest := Nat.le_findGreatest (P := fun n => Bytes.IsProlog (document.take n)) hlength
    hother
  rw [List.length_take]
  exact Nat.le_min.mpr ⟨hgreatest, hlength⟩

/-- There is one only. -/
theorem unique {prolog' rest' : Bytes} (h : LongestProlog document prolog rest)
    (h' : LongestProlog document prolog' rest') : prolog = prolog' ∧ rest = rest' := by
  have hle := h.longest _ h'.isProlog (h'.document_eq ▸ List.prefix_append _ _)
  have hle' := h'.longest _ h.isProlog (h.document_eq ▸ List.prefix_append _ _)
  exact List.append_inj (h.document_eq.symm.trans h'.document_eq) (Nat.le_antisymm hle' hle)

/-- **Every document is cut in exactly one way**, into `parts.1` and `parts.2`. -/
theorem existsUnique (document : Bytes) :
    ∃! parts : Bytes × Bytes, LongestProlog document parts.1 parts.2 := by
  obtain ⟨prolog, rest, h⟩ := exists_longest document
  refine ⟨(prolog, rest), h, ?_⟩
  rintro ⟨prolog', rest'⟩ h'
  obtain ⟨rfl, rfl⟩ := h'.unique h
  rfl

end LongestProlog

/-! ## The first tag -/

namespace Cursor

variable {cursor : Cursor} {text inner behind : Bytes}

/-- Where no `<` is left, the cursor is reported: `Fault.missingTagStart cursor.position`. -/
theorem nextTag_of_tagless (h : Byte.lessThan ∉ cursor.remaining) :
    cursor.nextTag = .error (.missingTagStart cursor.position) := by
  have hnone : cursor.findByte? Byte.lessThan = none :=
    Option.map_eq_none_iff.mpr (Bytes.indexOfByte?_eq_none_iff.mpr h)
  simp only [nextTag, hnone]

/-- Where no `>` follows the first `<`, that `<` is reported:
`Fault.missingTagEnd (cursor.position + text.length)`. -/
theorem nextTag_of_unended (h : cursor.remaining = text ++ Byte.lessThan :: behind)
    (htext : Byte.lessThan ∉ text) (hbehind : Byte.greaterThan ∉ behind) :
    cursor.nextTag = .error (.missingTagEnd (cursor.position + text.length)) := by
  have hdrop := drop_document_of_remaining h
  have hstart : cursor.findByte? Byte.lessThan = some (cursor.position + text.length) :=
    findByteFrom?_of_drop h htext
  have hnone : cursor.findByteFrom? (cursor.position + text.length + 1) Byte.greaterThan = none := by
    rw [findByteFrom?, Option.map_eq_none_iff, Bytes.indexOfByte?_eq_none_iff, tailFrom,
      ← List.drop_drop, hdrop]
    exact hbehind
  simp only [nextTag, hstart, hnone]

/-- **What a tag is** is said by the byte behind its `<`, which is the first byte of `inner`, or the
`>` where nothing stands between them. -/
theorem kindOf_tagBehind_eq
    (h : cursor.remaining = text ++ Byte.lessThan :: (inner ++ Byte.greaterThan :: behind)) :
    cursor.kindOf (cursor.tagBehind text inner) =
      .ofByte? (some (inner.head?.getD Byte.greaterThan)) := by
  cases inner with
  | cons byte inner => exact kindOf_tagBehind h rfl
  | nil =>
    have hdrop := drop_document_of_remaining h
    rw [kindOf, byteAt?, tagBehind, ← List.head?_drop, ← List.drop_drop, hdrop]
    rfl

/-- A tag closes an element when a slash follows its `<`. -/
theorem kindOf_tagBehind_eq_closing_iff
    (h : cursor.remaining = text ++ Byte.lessThan :: (inner ++ Byte.greaterThan :: behind)) :
    cursor.kindOf (cursor.tagBehind text inner) = .closing ↔ inner.head? = some Byte.slash := by
  rw [kindOf_tagBehind_eq h]
  constructor
  · intro hkind
    have hslash := TagKind.eq_slash_of_closing hkind
    cases inner with
    | nil => cases hslash
    | cons byte inner => exact hslash
  · intro hhead
    rw [hhead]
    rfl

/-- What is decoded of a tag is `inner`, what stands between its brackets, and the body starts
behind them. -/
theorem decodeTag_tagBehind (overflow : Overflow)
    (h : cursor.remaining = text ++ Byte.lessThan :: (inner ++ Byte.greaterThan :: behind)) :
    cursor.decodeTag overflow (cursor.tagBehind text inner) =
      (Declaration.decode overflow (cursor.position + text.length) inner).result.map
        (⟨·, cursor.position + text.length + inner.length + 2⟩) := by
  unfold decodeTag
  dsimp only
  rw [slice_tagBehind h, (remaining_passTag_tagBehind h).2]
  rfl

/-- **Bytes that begin with no block** begin with no declaration: their first tag is not
`.markup`. -/
theorem kindOf_tagBehind_ne_markup
    (h : cursor.remaining = text ++ Byte.lessThan :: (inner ++ Byte.greaterThan :: behind))
    (htext : Byte.lessThan ∉ text) (hinner : Byte.greaterThan ∉ inner)
    (hnone : ∀ (block : PrologBlock) after, cursor.remaining ≠ block.render ++ after) :
    cursor.kindOf (cursor.tagBehind text inner) ≠ .markup := by
  intro hkind
  rw [kindOf_tagBehind_eq h] at hkind
  have hbyte := TagKind.eq_mark_of_markup hkind
  cases inner with
  | nil => exact absurd hbyte (by decide)
  | cons mark content =>
    -- the text and the tag would be a block
    have hmark : mark = Byte.question ∨ mark = Byte.bang := by simpa using hbyte
    have hcontent : Byte.greaterThan ∉ content := fun hm => hinner (List.mem_cons_of_mem _ hm)
    refine hnone ⟨text, mark, content, htext, hmark, hcontent⟩ behind ?_
    simp [h, PrologBlock.render]

end Cursor

/-! ## What a parse comes to -/

/-- **The policy that lets every node go**, and answers with a signal: `⟨.ignore, signal⟩` at every
visit. -/
def Policy.letGo (signal : Signal) : Policy := fun _ => ⟨.ignore, signal⟩

/-- **What the first tag comes to**, where it is no declaration: the visits, the place of the
cursor, and the result. `start` is the place of its `<`, and `inner` stands between its brackets. -/
inductive TagOutcome (options : Options) (start : Nat) (inner : Bytes) :
    List Sight → Nat → Except Fault Unit → Prop
  /-- There is no room for the scope of the document. -/
  | refused (full : options.maxDepth = 0) :
      TagOutcome options start inner [] start (.error (.depthExceeded 0))
  /-- It is a closing tag. -/
  | closing (room : options.maxDepth ≠ 0) (slash : inner.head? = some Byte.slash) :
      TagOutcome options start inner [] start (.error (.unexpectedClosingTag start))
  /-- What stands between its brackets is no declaration of an element. -/
  | undecoded {fault : Fault} (room : options.maxDepth ≠ 0) (opening : inner.head? ≠ some Byte.slash)
      (decoded : (Declaration.decode options.overflow start inner).result = .error fault) :
      TagOutcome options start inner [] (start + inner.length + 2) (.error fault)
  /-- Its node is visited. -/
  | visited {declaration : Declaration} (room : options.maxDepth ≠ 0)
      (opening : inner.head? ≠ some Byte.slash)
      (decoded : (Declaration.decode options.overflow start inner).result = .ok declaration) :
      TagOutcome options start inner
        [⟨⟨declaration, start + inner.length + 2⟩, 1, start + inner.length + 2⟩]
        (start + inner.length + 2) (.ok ())

/-- **What the bytes behind a prolog come to**, where they begin with no block and stand at
`place`. -/
inductive RestOutcome (options : Options) (place : Nat) :
    Bytes → List Sight → Nat → Except Fault Unit → Prop
  /-- Nothing is left. -/
  | empty : RestOutcome options place [] [] place (.ok ())
  /-- No `<` is left. -/
  | tagless {rest : Bytes} (more : rest ≠ []) (clear : Byte.lessThan ∉ rest) :
      RestOutcome options place rest [] place (.error (.missingTagStart place))
  /-- No `>` follows the first `<`. -/
  | unended {text behind : Bytes} (text_clear : Byte.lessThan ∉ text)
      (behind_clear : Byte.greaterThan ∉ behind) :
      RestOutcome options place (text ++ Byte.lessThan :: behind) [] place
        (.error (.missingTagEnd (place + text.length)))
  /-- There is a first tag. -/
  | tagged {text inner behind : Bytes} {sights : List Sight} {position : Nat}
      {result : Except Fault Unit} (text_clear : Byte.lessThan ∉ text)
      (inner_clear : Byte.greaterThan ∉ inner)
      (outcome : TagOutcome options (place + text.length) inner sights position result) :
      RestOutcome options place
        (text ++ Byte.lessThan :: (inner ++ Byte.greaterThan :: behind)) sights position result

namespace Policy

variable {policy : Policy} {options : Options} {cursor : Cursor}

/-- A tour at the end of a document is over. -/
theorem tour_of_eof (heof : cursor.isEof = true) :
    policy.tour options cursor = ⟨cursor, .blank, .ok ()⟩ := by
  rw [tour, Cursor.skipProlog_of_eof heof]
  simp [Tour.start, heof]

/-- A tour without a tag fails where it begins, with the fault of `nextTag` and with nothing met. -/
theorem tour_of_error {fault : Fault} (hmore : cursor.isEof = false)
    (hnext : cursor.nextTag = .error fault) :
    policy.tour options cursor = ⟨cursor, .blank, .error fault⟩ := by
  rw [tour, Cursor.skipProlog_of_error hmore hnext]
  rfl

/-- **A tour with a tag that is no declaration** goes to its `<` and looks at the room, and then at
the tag again: `depthExceeded` comes before `unexpectedClosingTag`. -/
theorem tour_of_tag {tag : Tag} (hnext : cursor.nextTag = .ok tag)
    (hkind : cursor.kindOf tag ≠ .markup) :
    policy.tour options cursor =
      if options.maxDepth = 0 then
        ⟨cursor.setPosition tag.start, .blank, .error (.depthExceeded options.maxDepth)⟩
      else if cursor.kindOf tag = .closing then
        ⟨cursor.setPosition tag.start, .blank, .error (.unexpectedClosingTag tag.start)⟩
      else
        (Tour.enter policy options cursor .blank tag []).run policy options := by
  have hmore := Cursor.isEof_of_nextTag hnext
  -- at the `<` of the tag, it is the next tag again
  have hagain := Cursor.nextTag_setPosition_start hnext
  have hmore' := Cursor.isEof_of_nextTag hagain
  have hsame : (cursor.setPosition tag.start).kindOf tag = cursor.kindOf tag := rfl
  rw [tour, Cursor.skipProlog_of_tag hmore hnext hkind]
  simp only [Logged.result_quiet, Tour.start, hmore', Bool.false_eq_true, if_false, hagain, hsame]
  by_cases hfull : options.maxDepth = 0
  · rw [if_pos hfull, if_pos hfull, Tour.run_failed]
  · rw [if_neg hfull, if_neg hfull]
    by_cases hclosing : cursor.kindOf tag = .closing
    · rw [if_pos hclosing, if_pos hclosing, Tour.run_failed]
    · -- where a tag is entered from does not matter
      rw [if_neg hclosing, if_neg hclosing]
      rfl

/-- A root element that is let go ends the tour behind its tag, with one visit at depth `1`. -/
theorem run_enter_letGo {signal : Signal} {tag : Tag} {node : Node}
    (hdecode : cursor.decodeTag options.overflow tag = .ok node) :
    (Tour.enter (letGo signal) options cursor .blank tag []).run (letGo signal) options =
      ⟨cursor.passTag tag, Account.blank.meet 1 node, .ok ()⟩ := by
  rw [Tour.enter_of_ok hdecode, Tour.visit_of_ignore rfl rfl, Tour.leave, Tour.run_ended]
  rfl

/-- **A tour that lets the root element go**, from the first tag on, has one of the cases of
`TagOutcome`. -/
theorem tagOutcome_tour (signal : Signal) (options : Options) {text inner behind : Bytes}
    (hremaining : cursor.remaining =
      text ++ Byte.lessThan :: (inner ++ Byte.greaterThan :: behind))
    (htext : Byte.lessThan ∉ text) (hinner : Byte.greaterThan ∉ inner)
    (hnone : ∀ (block : PrologBlock) after, cursor.remaining ≠ block.render ++ after) :
    TagOutcome options (cursor.position + text.length) inner
      ((letGo signal).tour options cursor).account.sights
      ((letGo signal).tour options cursor).cursor.position
      ((letGo signal).tour options cursor).result := by
  have hnext := Cursor.nextTag_of_remaining hremaining htext hinner
  have hkind := Cursor.kindOf_tagBehind_ne_markup hremaining htext hinner hnone
  have hclosing := Cursor.kindOf_tagBehind_eq_closing_iff hremaining
  have hdecoded := Cursor.decodeTag_tagBehind options.overflow hremaining
  have hpassed := (Cursor.remaining_passTag_tagBehind hremaining).2
  have hstart : (cursor.setPosition (cursor.tagBehind text inner).start).position =
      cursor.position + text.length := by
    have hbounds := Cursor.nextTag_bounds hnext
    have heq : (cursor.tagBehind text inner).start = cursor.position + text.length := rfl
    rw [Cursor.position_setPosition]
    omega
  rw [tour_of_tag hnext hkind]
  -- a tour looks for room first, then at the kind of the tag, and then decodes it
  by_cases hfull : options.maxDepth = 0
  · rw [if_pos hfull, hfull]
    dsimp only
    rw [hstart]
    exact .refused hfull
  · rw [if_neg hfull]
    by_cases hslash : inner.head? = some Byte.slash
    · rw [if_pos (hclosing.mpr hslash)]
      dsimp only
      rw [hstart]
      exact .closing hfull hslash
    · rw [if_neg (fun h => hslash (hclosing.mp h))]
      cases hdecode : (Declaration.decode options.overflow (cursor.position + text.length)
          inner).result with
      | error fault =>
        rw [hdecode] at hdecoded
        rw [Tour.enter_of_error hdecoded, Tour.run_failed]
        dsimp only
        rw [hpassed]
        exact .undecoded hfull hslash hdecode
      | ok declaration =>
        rw [hdecode] at hdecoded
        rw [run_enter_letGo hdecoded]
        dsimp only
        rw [hpassed]
        exact .visited hfull hslash hdecode

/-- **A tour that lets the root element go**, over bytes that begin with no block, has one of the
cases of `RestOutcome`. -/
theorem restOutcome_tour (signal : Signal) (options : Options)
    (hnone : ∀ (block : PrologBlock) after, cursor.remaining ≠ block.render ++ after) :
    RestOutcome options cursor.position cursor.remaining
      ((letGo signal).tour options cursor).account.sights
      ((letGo signal).tour options cursor).cursor.position
      ((letGo signal).tour options cursor).result := by
  by_cases hempty : cursor.remaining = []
  · rw [tour_of_eof (cursor.isEof_iff.mpr hempty), hempty]
    exact .empty
  · -- cut what is left at its first `<`, and what stands behind that at its first `>`
    have hmore : cursor.isEof = false := by
      rw [Bool.eq_false_iff, Ne, Cursor.isEof_iff]
      exact hempty
    by_cases hopen : Byte.lessThan ∈ cursor.remaining
    · obtain ⟨text, behind, hremaining, htext⟩ := List.eq_append_cons_of_mem hopen
      by_cases hclose : Byte.greaterThan ∈ behind
      · obtain ⟨inner, behind, rfl, hinner⟩ := List.eq_append_cons_of_mem hclose
        have houtcome := tagOutcome_tour signal options hremaining htext hinner hnone
        rw [hremaining]
        exact .tagged htext hinner houtcome
      · rw [tour_of_error hmore (Cursor.nextTag_of_unended hremaining htext hclose), hremaining]
        exact .unended htext hclose
    · rw [tour_of_error hmore (Cursor.nextTag_of_tagless hopen)]
      exact .tagless hempty hopen

end Policy

/-! ## Which outcome it is -/

/-- **What the first tag comes to, and when**: `TagOutcome` read off the result, one field for each
case. -/
structure TagReport (options : Options) (start : Nat) (inner : Bytes) (sights : List Sight)
    (position : Nat) (result : Except Fault Unit) : Prop where
  /-- Without room for the scope of the document, that is reported, whatever the tag is. -/
  refused : options.maxDepth = 0 → result = .error (.depthExceeded 0)
  /-- With room, a closing tag is reported at its `<`, and no other tag is reported so. -/
  closing_iff : options.maxDepth ≠ 0 →
    (result = .error (.unexpectedClosingTag start) ↔ inner.head? = some Byte.slash)
  /-- The bytes between the brackets of any other tag are decoded, and why they cannot be is reported,
  with the place of the `<`. -/
  undecoded : options.maxDepth ≠ 0 → inner.head? ≠ some Byte.slash → ∀ fault,
    (Declaration.decode options.overflow start inner).result = .error fault → result = .error fault
  /-- If they can be, there is one visit, of a node whose body starts just behind the `>`, and the cursor
  stays there. -/
  visited : options.maxDepth ≠ 0 → inner.head? ≠ some Byte.slash → ∀ declaration,
    (Declaration.decode options.overflow start inner).result = .ok declaration →
      result = .ok () ∧ position = start + inner.length + 2 ∧
        sights = [⟨⟨declaration, position⟩, 1, position⟩]
  /-- No visit comes before a fault. -/
  unseen : ∀ fault, result = .error fault → sights = []

/-- **What a parse comes to that lets the root element go**, by what stands behind the longest
prolog: each fault of a missing bracket, and the good end without a visit, exactly when the bytes
are so. -/
structure RestReport (options : Options) (place : Nat) (rest : Bytes) (sights : List Sight)
    (position : Nat) (result : Except Fault Unit) : Prop where
  /-- It ends well at the end of the document and without a visit exactly when nothing is left. -/
  empty_iff : result = .ok () ∧ sights = [] ∧ position = place + rest.length ↔ rest = []
  /-- A missing `<` is reported just behind the prolog, exactly when something is left without a `<`. -/
  tagless_iff : ∀ here, result = .error (.missingTagStart here) ↔
    here = place ∧ rest ≠ [] ∧ Byte.lessThan ∉ rest
  /-- A missing `>` is reported at the first `<`, exactly when no `>` follows it. -/
  unended_iff : ∀ start, result = .error (.missingTagEnd start) ↔
    ∃ text behind, rest = text ++ Byte.lessThan :: behind ∧ Byte.lessThan ∉ text ∧
      Byte.greaterThan ∉ behind ∧ start = place + text.length
  /-- Otherwise the first `<` and the first `>` behind it are a tag. -/
  tagged : ∀ text inner behind,
    rest = text ++ Byte.lessThan :: (inner ++ Byte.greaterThan :: behind) →
      Byte.lessThan ∉ text → Byte.greaterThan ∉ inner →
        TagReport options (place + text.length) inner sights position result

section Report

variable {options : Options} {place start : Nat} {rest inner : Bytes} {sights : List Sight}
  {position : Nat} {result : Except Fault Unit} {fault : Fault}

/-- Why a text is not decoded has nothing to do with the brackets of its tag: it is
`emptyDeclaration` or `tooManyAttributes`. -/
theorem Declaration.fault_of_decode {overflow : Overflow} {text : Bytes}
    (h : (decode overflow position text).result = .error fault) :
    fault = .emptyDeclaration position ∨ ∃ name max, fault = .tooManyAttributes name max := by
  rcases result_decode_eq_error_iff.mp h with ⟨-, rfl⟩ | ⟨-, -, -, rfl⟩
  · exact .inl rfl
  · exact .inr ⟨_, _, rfl⟩

/-- A first tag never fails for want of a bracket. -/
theorem TagOutcome.ne_missing (h : TagOutcome options start inner sights position result)
    (here : Nat) :
    result ≠ .error (.missingTagStart here) ∧ result ≠ .error (.missingTagEnd here) := by
  cases h with
  | refused => exact ⟨nofun, nofun⟩
  | closing => exact ⟨nofun, nofun⟩
  | undecoded room opening decoded =>
    rcases Declaration.fault_of_decode decoded with rfl | ⟨name, max, rfl⟩
    · exact ⟨nofun, nofun⟩
    · exact ⟨nofun, nofun⟩
  | visited => exact ⟨nofun, nofun⟩

/-- The outcomes of a first tag are told apart by their results. -/
theorem TagOutcome.report (h : TagOutcome options start inner sights position result) :
    TagReport options start inner sights position result := by
  cases h with
  -- the fields are about one case each, and the others hold since their premises fail
  | refused full =>
    constructor
    · exact fun _ => rfl
    · exact fun room => absurd full room
    · exact fun room => absurd full room
    · exact fun room => absurd full room
    · exact fun _ _ => rfl
  | closing room slash =>
    constructor
    · exact fun full => absurd full room
    · exact fun _ => ⟨fun _ => slash, fun _ => rfl⟩
    · exact fun _ opening => absurd slash opening
    · exact fun _ opening => absurd slash opening
    · exact fun _ _ => rfl
  | undecoded room opening decoded =>
    constructor
    · exact fun full => absurd full room
    · refine fun _ => ⟨fun hclosing => ?_, fun slash => absurd slash opening⟩
      rcases Declaration.fault_of_decode decoded with rfl | ⟨name, max, rfl⟩
      · cases hclosing
      · cases hclosing
    · intro _ _ fault hfault
      rw [decoded] at hfault
      cases hfault
      rfl
    · intro _ _ declaration hdeclared
      rw [decoded] at hdeclared
      cases hdeclared
    · exact fun _ _ => rfl
  | visited room opening decoded =>
    constructor
    · exact fun full => absurd full room
    · exact fun _ => ⟨nofun, fun slash => absurd slash opening⟩
    · intro _ _ fault hfault
      rw [decoded] at hfault
      cases hfault
    · intro _ _ declaration hdeclared
      rw [decoded] at hdeclared
      cases hdeclared
      exact ⟨rfl, rfl, rfl⟩
    · exact fun _ => nofun

/-- **The outcomes behind a prolog are told apart by their results**, so `RestReport` holds of each
of them. -/
theorem RestOutcome.report (h : RestOutcome options place rest sights position result) :
    RestReport options place rest sights position result := by
  cases h with
  | empty =>
    constructor
    · exact ⟨fun _ => rfl, fun _ => ⟨rfl, rfl, rfl⟩⟩
    · exact fun here => ⟨nofun, fun hclear => absurd rfl hclear.2.1⟩
    · intro start
      refine ⟨nofun, ?_⟩
      rintro ⟨text, behind, hrest, -⟩
      simp at hrest
    · intro text inner behind hrest
      simp at hrest
  | tagless more clear =>
    constructor
    · exact ⟨nofun, fun hempty => absurd hempty more⟩
    · intro here
      constructor
      · intro hresult
        cases hresult
        exact ⟨rfl, more, clear⟩
      · rintro ⟨rfl, -, -⟩
        rfl
    · intro start
      refine ⟨nofun, ?_⟩
      rintro ⟨text, behind, rfl, -⟩
      simp at clear
    · rintro text inner behind rfl
      simp at clear
  | @unended text behind text_clear behind_clear =>
    constructor
    · simp
    · intro here
      refine ⟨nofun, ?_⟩
      rintro ⟨-, -, hclear⟩
      simp at hclear
    · intro start
      constructor
      · intro hresult
        cases hresult
        exact ⟨text, behind, rfl, text_clear, behind_clear, rfl⟩
      · rintro ⟨text', behind', hrest, htext, -, rfl⟩
        -- the first `<` is where it was, so the other way to cut is this one
        obtain ⟨rfl, -⟩ := Bytes.append_cons_inj text_clear htext hrest
        rfl
    · intro text' inner behind' hrest htext
      obtain ⟨-, rfl⟩ := Bytes.append_cons_inj text_clear htext hrest
      simp at behind_clear
  | @tagged text inner behind _ _ _ text_clear inner_clear outcome =>
    constructor
    · refine ⟨?_, by simp⟩
      rintro ⟨rfl, rfl, -⟩
      cases outcome
    · intro here
      refine ⟨fun hresult => absurd hresult (outcome.ne_missing here).1, ?_⟩
      rintro ⟨-, -, hclear⟩
      simp at hclear
    · intro start
      refine ⟨fun hresult => absurd hresult (outcome.ne_missing start).2, ?_⟩
      rintro ⟨text', behind', hrest, htext, hbehind, -⟩
      obtain ⟨-, rfl⟩ := Bytes.append_cons_inj text_clear htext hrest
      simp at hbehind
    · intro text' inner' behind' hrest htext hinner
      -- both cuts are determined, by the first `<` and the first `>` behind it
      obtain ⟨rfl, htag⟩ := Bytes.append_cons_inj text_clear htext hrest
      obtain ⟨rfl, -⟩ := Bytes.append_cons_inj inner_clear hinner htag
      exact outcome.report

end Report

/-! ## Whole parses -/

/-- **A tour over a document is one over what stands behind a prolog**, with the prolog in front:
`RestReport options prolog.length rest`. -/
theorem LongestProlog.report_tour {document prolog rest : Bytes}
    (h : LongestProlog document prolog rest) (signal : Signal) (options : Options) :
    RestReport options prolog.length rest
      ((Policy.letGo signal).tour options (.ofDocument document)).account.sights
      ((Policy.letGo signal).tour options (.ofDocument document)).cursor.position
      ((Policy.letGo signal).tour options (.ofDocument document)).result := by
  obtain ⟨rfl, ⟨blocks, rfl⟩, hnone⟩ := longestProlog_iff.mp h
  -- the policy looks at nothing, so the prolog can be put in front of the rest
  have htour : (Policy.letGo signal).tour options
      (.ofDocument (PrologBlock.renderAll blocks ++ rest)) =
        (Policy.letGo signal).tour options
          ((Cursor.ofDocument rest).shift (PrologBlock.renderAll blocks)) :=
    (Policy.tour_prolog (fun _ => ⟨.ignore, signal⟩) options blocks rest).trans
      (Policy.tour_shift _ (fun _ => ⟨.ignore, signal⟩) options (.ofDocument rest)).symm
  have hremaining : ((Cursor.ofDocument rest).shift (PrologBlock.renderAll blocks)).remaining = rest :=
    Cursor.tailFrom_shift (PrologBlock.renderAll blocks) (.ofDocument rest) 0
  rw [← hremaining] at hnone
  have houtcome := Policy.restOutcome_tour signal options hnone
  rw [hremaining] at houtcome
  rw [htour]
  exact houtcome.report

/-- **Every document is classified by what stands behind its longest prolog.** Declarations at the
front of a document, with any text in front of each, are a prolog, and there is exactly one
`LongestProlog document prolog rest`. The parse by `Policy.letGo signal`, which does nothing with
the root element and answers with either signal, always comes to an end, as `RestReport` says: well
and without a visit if nothing is left, or for want of a `<` or a `>`; otherwise the first tag
decides, as `TagReport` says. It is refused without room for a scope, it is a closing tag, it cannot
be decoded, or its node is the only one that is visited. -/
theorem parse_letGo (signal : Signal) (options : Options) {document : Bytes} {fuel : Nat}
    (hfuel : document.length < fuel) :
    (∃! parts : Bytes × Bytes, LongestProlog document parts.1 parts.2) ∧
      ∃ ended result,
        (Policy.letGo signal).parse fuel (.ofDocument document options) = some (ended, result) ∧
          ∀ prolog rest, LongestProlog document prolog rest →
            RestReport options prolog.length rest ended.sights ended.reader.position result := by
  refine ⟨LongestProlog.existsUnique document, ?_⟩
  obtain ⟨ended, result, hrun, -, htour⟩ := parse_eq_tour (.letGo signal) options hfuel
  refine ⟨ended, result, hrun, ?_⟩
  intro prolog rest h
  have hreport := h.report_tour signal options
  rw [htour] at hreport
  exact hreport

/-- The document `<?x> <!d>t<a b=1>`. -/
def documentBehindDeclarations : Bytes :=
  [0x3C, 0x3F, 0x78, 0x3E, 0x20, 0x3C, 0x21, 0x64, 0x3E, 0x74, 0x3C, 0x61, 0x20, 0x62, 0x3D, 0x31, 0x3E]

/-- Its longest prolog is `<?x> <!d>`, in front of the text `t`, and the only node visited is `a`,
whose body starts at offset 17. -/
theorem parse_letGo_documentBehindDeclarations :
    documentBehindDeclarations.length < 18 ∧
      LongestProlog documentBehindDeclarations [0x3C, 0x3F, 0x78, 0x3E, 0x20, 0x3C, 0x21, 0x64, 0x3E]
        [0x74, 0x3C, 0x61, 0x20, 0x62, 0x3D, 0x31, 0x3E] ∧
      ∃ ended declaration, (Policy.letGo .stop).parse 18
          (.ofDocument documentBehindDeclarations .strict) = some (ended, .ok ()) ∧
        ended.reader.position = 17 ∧ ended.sights = [⟨⟨declaration, 17⟩, 1, 17⟩] ∧
        declaration.name = [0x61] ∧ declaration.attributes.items = [⟨[0x62], [0x31]⟩] := by
  have hfuel : documentBehindDeclarations.length < 18 := by decide
  have hlongest : LongestProlog documentBehindDeclarations
      [0x3C, 0x3F, 0x78, 0x3E, 0x20, 0x3C, 0x21, 0x64, 0x3E]
      [0x74, 0x3C, 0x61, 0x20, 0x62, 0x3D, 0x31, 0x3E] := by
    refine longestProlog_iff.mpr ⟨rfl, ⟨[⟨[], 0x3F, [0x78], by decide, .inl rfl, by decide⟩,
      ⟨[0x20], 0x21, [0x64], by decide, .inr rfl, by decide⟩], rfl⟩, ?_⟩
    exact PrologBlock.append_ne_render_append (show Byte.lessThan ∉ [0x74] by decide) (by decide)
  obtain ⟨-, ended, result, hrun, hreport⟩ := parse_letGo .stop .strict hfuel
  have htag := (hreport _ _ hlongest).tagged [0x74] [0x61, 0x20, 0x62, 0x3D, 0x31] [] rfl (by decide)
    (by decide)
  obtain ⟨hresult, hposition, hsights⟩ := htag.visited (by decide) (by decide)
    ⟨[0x61], ⟨[⟨[0x62], [0x31]⟩], by decide⟩, false⟩ (by decide)
  subst hresult
  rw [hposition] at hsights
  exact ⟨hfuel, hlongest, ended, _, hrun, hposition, hsights, rfl, rfl⟩

end TagWalk
