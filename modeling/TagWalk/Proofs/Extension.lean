import TagWalk.Proofs.Touring

/-! # Longer documents

A search that finds something finds the same in a document that goes on longer: every search answers
with the first place, and what stands there stands in the document. So a tour that ends well does not
see what follows the part of the document that it has looked at. Two searches are different when more
bytes follow: one that fails, and the prolog of a document that holds nothing else.

* **`Cursor.extend`** — a cursor in a longer document.
* **`Cursor.nextTag_extend`**, **`Cursor.readBody_extend`** — what is found is found there, too.
* **`Tour.step_extend`** — a step that does not fail is the same step.
* **`parse_append`** — a parse that ends well, with a root element, ends in the same way. -/

namespace TagWalk

/-- Bytes that stand at the front of a tail stand there when more follows:
`needle <+: (bytes ++ more).drop offset`. -/
theorem Bytes.isPrefix_drop_append {bytes needle more : Bytes} {offset : Nat}
    (h : needle <+: bytes.drop offset) (hle : offset ≤ bytes.length) :
    needle <+: (bytes ++ more).drop offset := by
  rw [List.drop_append_of_le_length hle]
  exact h.trans (List.prefix_append _ _)

namespace Cursor

/-- **The cursor at the same place of a document that goes on longer**: `cursor.document ++
more`. -/
def extend (cursor : Cursor) (more : Bytes) : Cursor where
  document := cursor.document ++ more
  position := cursor.position
  position_le := by
    rw [List.length_append]
    exact Nat.le_trans cursor.position_le (Nat.le_add_right _ _)

variable {cursor after : Cursor} {more : Bytes} {tag : Tag} {node : Node}

@[simp] theorem document_extend (cursor : Cursor) (more : Bytes) :
    (cursor.extend more).document = cursor.document ++ more := rfl

@[simp] theorem position_extend (cursor : Cursor) (more : Bytes) :
    (cursor.extend more).position = cursor.position := rfl

/-- Inside of the document, the same bytes stand at the same places. -/
theorem getElem?_extend {offset : Nat} (h : offset < cursor.document.length) :
    (cursor.extend more).document[offset]? = cursor.document[offset]? :=
  List.getElem?_append_left h

/-- A place in the document is the same place when it goes on. Without the bound
`position ≤ cursor.document.length`, the shorter document would clamp it. -/
theorem setPosition_extend {position : Nat} (h : position ≤ cursor.document.length) :
    (cursor.extend more).setPosition position = (cursor.setPosition position).extend more := by
  have hmore : position ≤ (cursor.document ++ more).length := by
    rw [List.length_append]
    omega
  simp only [setPosition, extend, Nat.min_eq_left h, Nat.min_eq_left hmore]

/-- A byte that is found is found first, since every byte of `more` stands behind it. -/
theorem findByteFrom?_extend {start offset : Nat} {byte : UInt8}
    (h : cursor.findByteFrom? start byte = some offset) :
    (cursor.extend more).findByteFrom? start byte = some offset := by
  have hlt := findByteFrom?_lt_length h
  obtain ⟨hstart, hbyte, hfirst⟩ := findByteFrom?_eq_some_iff.mp h
  refine findByteFrom?_eq_some_iff.mpr ⟨hstart, ?_, ?_⟩
  · rw [getElem?_extend hlt]
    exact hbyte
  · intro i hle hi
    rw [getElem?_extend (Nat.lt_trans hi hlt)]
    exact hfirst i hle hi

/-- **A tag that is found is the next one** in the longer document as well; only a fault of
`nextTag` might not be one there. -/
theorem nextTag_extend (h : cursor.nextTag = .ok tag) : (cursor.extend more).nextTag = .ok tag := by
  obtain ⟨hstart, hstop⟩ := nextTag_eq_ok_iff.mp h
  exact nextTag_eq_ok_iff.mpr ⟨findByteFrom?_extend hstart, findByteFrom?_extend hstop⟩

/-- It is of the same kind. -/
theorem kindOf_extend (h : cursor.nextTag = .ok tag) :
    (cursor.extend more).kindOf tag = cursor.kindOf tag := by
  have hbounds := nextTag_bounds h
  rw [kindOf, kindOf, byteAt?, byteAt?, getElem?_extend (by omega)]

/-- It is passed in the same way: `(cursor.passTag tag).extend more`. -/
theorem passTag_extend (h : cursor.nextTag = .ok tag) :
    (cursor.extend more).passTag tag = (cursor.passTag tag).extend more :=
  setPosition_extend (nextTag_bounds h).2.2

/-- It holds the same node. -/
theorem decodeTag_extend (overflow : Overflow) (h : cursor.nextTag = .ok tag) :
    (cursor.extend more).decodeTag overflow tag = cursor.decodeTag overflow tag := by
  have hstop := (nextTag_bounds h).2.2
  rw [decodeTag, decodeTag, passTag_extend h, document_extend,
    Bytes.slice_append _ _ _ (Nat.le_of_lt hstop), position_extend]

/-- **A needle that is found is found first**, even where the seam between `cursor.document` and
`more` is inside of a later one. -/
theorem findFrom?_extend {start offset : Nat} {needle : Bytes}
    (h : cursor.findFrom? start needle = some offset) (hneedle : needle ≠ []) :
    (cursor.extend more).findFrom? start needle = some offset := by
  obtain ⟨hstart, hfound, hfirst⟩ := findFrom?_eq_some_iff.mp h
  have hlength := hfound.length_le
  have hpos := List.length_pos_iff.mpr hneedle
  simp only [tailFrom, List.length_drop] at hlength
  refine findFrom?_eq_some_iff.mpr ⟨hstart, ?_, ?_⟩
  · exact Bytes.isPrefix_drop_append hfound (by omega)
  · intro i hle hi hearly
    -- an earlier place ends in front of the one that was found, so it is no new one
    refine hfirst i hle hi ?_
    rw [tailFrom, document_extend, List.drop_append_of_le_length (by omega)] at hearly
    refine List.prefix_of_prefix_length_le hearly (List.prefix_append _ _) ?_
    rw [tailFrom, List.length_drop]
    omega

/-- **A body that is read is the same body**, and the cursor behind it is at the same place,
`after.extend more`. -/
theorem readBody_extend {body : Bytes} (h : cursor.readBody node = .ok (body, after)) :
    (cursor.extend more).readBody node = .ok (body, after.extend more) := by
  cases hself : node.selfClosing with
  | true =>
    rw [readBody_of_selfClosing hself] at h ⊢
    cases h
    rfl
  | false =>
    rw [readBody_of_open hself] at h ⊢
    cases hfound : cursor.closingTagOf node with
    | error fault =>
      rw [hfound] at h
      cases h
    | ok offset =>
      rw [hfound] at h
      cases h
      obtain ⟨hshort, hfind⟩ := closingTagOf_eq_ok_iff.mp hfound
      have hmore : (cursor.extend more).closingTagOf node = .ok offset :=
        closingTagOf_eq_ok_iff.mpr ⟨hshort, findFrom?_extend hfind (by simp [Node.closingTag])⟩
      -- the closing tag lies in the shorter document, so neither the slice nor the move is cut short
      have hfits := (findFrom?_eq_some_iff.mp hfind).2.1.length_le
      have hpos : 0 < node.closingTag.length := by
        rw [Node.length_closingTag]
        omega
      simp only [tailFrom, List.length_drop] at hfits
      have hplace := cursor.position_le
      rw [hmore]
      simp only [Except.map, document_extend, position_extend]
      rw [Bytes.slice_append _ _ _ (by omega), setPosition_extend (by omega)]

/-- A cursor that is not at the end is not at the end of a longer document. -/
theorem isEof_extend (h : cursor.isEof = false) : (cursor.extend more).isEof = false := by
  simp only [isEof, decide_eq_false_iff_not, document_extend, List.length_append,
    position_extend] at h ⊢
  omega

/-- **A prolog that ends at a tag ends there**, by induction on the declarations that are skipped.
One that ends with its document may go on in `more`. -/
theorem skipProlog_extend (hresult : cursor.skipProlog.2.result = .ok ())
    (hmore : cursor.skipProlog.1.isEof = false) :
    (cursor.extend more).skipProlog.1 = cursor.skipProlog.1.extend more ∧
      (cursor.extend more).skipProlog.2.result = .ok () := by
  fun_induction skipProlog cursor with
  | case1 cursor heof => rw [heof] at hmore; cases hmore
  | case2 => cases hresult
  | case3 cursor heof tag hnext hkind stopped skipped hskip ih =>
    rw [hskip] at ih
    rw [skipProlog_of_markup (isEof_extend (by simpa using heof)) (nextTag_extend hnext)
      ((kindOf_extend hnext).trans hkind), passTag_extend hnext]
    exact ih hresult hmore
  -- a prolog ends at a tag that lies in the shorter document
  | case4 cursor heof tag hnext hkind =>
    have hbounds := nextTag_bounds hnext
    rw [skipProlog_of_tag (isEof_extend (by simpa using heof)) (nextTag_extend hnext)
      ((kindOf_extend hnext).symm ▸ hkind), setPosition_extend (by omega)]
    exact ⟨rfl, rfl⟩

end Cursor

/-! ## Tours -/

/-- A finish in a longer document: only its cursor is another. -/
def Finish.extend (finish : Finish) (more : Bytes) : Finish :=
  { finish with cursor := finish.cursor.extend more }

namespace Tour

/-- A tour in a longer document, at the same place and with the same frames. -/
def extend (more : Bytes) : Tour → Tour
  | among cursor account frame outer => among (cursor.extend more) account frame outer
  | ended finish => ended (finish.extend more)

/-- **Whether a tour has not failed**: it goes on, or its result is `.ok ()`. What follows a
document may turn a failure into something else, and nothing else. -/
def IsFine : Tour → Prop
  | among .. => True
  | ended finish => finish.result = .ok ()

variable {policy : Policy} {options : Options} {cursor : Cursor} {account : Account}
  {left frame : Frame} {closed : Bool} {node : Node} {outer : List Frame} {more : Bytes}

theorem not_isFine_failed {fault : Fault} : ¬ (failed cursor account fault).IsFine := nofun

/-- A node that can be skipped is skipped in the same way, `extend` inside or outside. -/
theorem skip_extend (h : (skip cursor account node frame outer).IsFine) :
    skip (cursor.extend more) account node frame outer =
      (skip cursor account node frame outer).extend more := by
  cases hread : cursor.readBody node with
  | error fault =>
    rw [skip, hread] at h
    exact absurd h not_isFine_failed
  | ok read =>
    rw [skip, skip, hread, Cursor.readBody_extend hread]
    rfl

/-- A node is left in the same way, by induction on the elements that are left with it. -/
theorem leave_extend (h : (leave cursor account left closed outer).IsFine) :
    leave (cursor.extend more) account left closed outer =
      (leave cursor account left closed outer).extend more := by
  induction outer generalizing left closed with
  | nil => rfl
  | cons frame outer ih =>
    rw [leave] at h
    rw [leave, leave]
    cases hsignal : left.signal with
    | stop =>
      rw [hsignal] at h
      exact ih h
    | proceed =>
      rw [hsignal] at h
      cases closed with
      | true => rfl
      | false => exact skip_extend h

/-- A node is visited in the same way. -/
theorem visit_extend {maxDepth : Nat} (h : (visit policy maxDepth cursor account node outer).IsFine) :
    visit policy maxDepth (cursor.extend more) account node outer =
      (visit policy maxDepth cursor account node outer).extend more := by
  cases huse : (policy (node :: account.seen)).use with
  | ignore =>
    rw [visit_of_ignore rfl huse] at h ⊢
    rw [visit_of_ignore rfl huse]
    exact leave_extend h
  | readBody =>
    cases hread : cursor.readBody node with
    -- a fault is excluded, as the closing tag might stand in the bytes that follow
    | error fault =>
      rw [visit_of_unread huse hread] at h
      exact absurd h not_isFine_failed
    | ok read =>
      rw [visit_of_read rfl huse hread] at h ⊢
      rw [visit_of_read rfl huse (Cursor.readBody_extend hread)]
      exact leave_extend h
  | descend =>
    cases hself : node.selfClosing with
    | true =>
      rw [visit_of_childless rfl huse hself] at h ⊢
      rw [visit_of_childless rfl huse hself]
      exact leave_extend h
    | false =>
      by_cases hfull : maxDepth ≤ outer.length + 1
      · rw [visit_of_full huse hself hfull] at h
        exact absurd h not_isFine_failed
      · rw [visit_of_room rfl huse hself hfull, visit_of_room rfl huse hself hfull]
        rfl

/-- A tag is entered in the same way. -/
theorem enter_extend {tag : Tag} (hnext : cursor.nextTag = .ok tag)
    (h : (enter policy options cursor account tag outer).IsFine) :
    enter policy options (cursor.extend more) account tag outer =
      (enter policy options cursor account tag outer).extend more := by
  rw [enter, enter, Cursor.decodeTag_extend _ hnext]
  rw [enter] at h
  cases hdecode : cursor.decodeTag options.overflow tag with
  | error fault =>
    rw [hdecode] at h
    exact absurd h not_isFine_failed
  | ok node =>
    rw [hdecode] at h
    dsimp only
    rw [Cursor.passTag_extend hnext]
    exact visit_extend h

/-- **A step that does not fail is the same step** in a longer document: `step` of
`tour.extend more` is `(step policy options tour).extend more`. -/
theorem step_extend {tour : Tour} (h : (step policy options tour).IsFine) :
    step policy options (tour.extend more) = (step policy options tour).extend more := by
  cases tour with
  | ended finish => rfl
  | among cursor account frame outer =>
    rw [extend]
    cases hnext : cursor.nextTag with
    -- a fault is excluded, as the missing bracket might stand in the bytes that follow
    | error fault =>
      rw [step_of_error hnext] at h
      exact absurd h not_isFine_failed
    | ok tag =>
      have hnext' : (cursor.extend more).nextTag = .ok tag := Cursor.nextTag_extend hnext
      have hsame : (cursor.extend more).kindOf tag = cursor.kindOf tag := Cursor.kindOf_extend hnext
      cases hkind : cursor.kindOf tag with
      | closing =>
        rw [step_of_closing hnext hkind] at h ⊢
        rw [step_of_closing hnext' (hsame.trans hkind), Cursor.passTag_extend hnext]
        exact leave_extend h
      | markup =>
        rw [step_of_markup hnext hkind, step_of_markup hnext' (hsame.trans hkind),
          Cursor.passTag_extend hnext]
        rfl
      | element =>
        rw [step_of_element hnext hkind] at h ⊢
        rw [step_of_element hnext' (hsame.trans hkind)]
        exact enter_extend hnext h

/-- A tour that ends well has not failed, at no step of it. -/
theorem isFine_of_run {tour : Tour} (h : (tour.run policy options).result = .ok ()) : tour.IsFine := by
  cases tour with
  | among => trivial
  | ended finish => rwa [run_ended] at h

/-- **A tour that ends well ends in the same way** in a longer document, by induction on the steps,
none of which fails. -/
theorem run_extend {tour : Tour} (h : (tour.run policy options).result = .ok ()) :
    (tour.extend more).run policy options = (tour.run policy options).extend more := by
  induction tour using Tour.run.induct policy options with
  | case1 finish => rw [extend, run_ended, run_ended]
  | case2 cursor account frame outer ih =>
    rw [← run_step] at h
    rw [← run_step, step_extend (isFine_of_run h), ih h, run_step]

/-- A tour with a root element begins in the same way. -/
theorem start_extend (hmore : cursor.isEof = false) (h : (start policy options cursor).IsFine) :
    start policy options (cursor.extend more) = (start policy options cursor).extend more := by
  rw [start, hmore, if_neg Bool.false_ne_true] at h
  rw [start, start, hmore, Cursor.isEof_extend hmore, if_neg Bool.false_ne_true,
    if_neg Bool.false_ne_true]
  split at h
  · exact absurd h not_isFine_failed
  · rename_i hroom
    rw [if_neg hroom, if_neg hroom]
    cases hnext : cursor.nextTag with
    | error fault =>
      rw [hnext] at h
      exact absurd h not_isFine_failed
    | ok tag =>
      rw [hnext] at h
      rw [Cursor.nextTag_extend hnext]
      dsimp only at h ⊢
      rw [Cursor.kindOf_extend hnext]
      split at h
      · exact absurd h not_isFine_failed
      · rename_i hkind
        rw [if_neg hkind, if_neg hkind]
        exact enter_extend hnext h

end Tour

/-- **A tour that ends well, with a visit, ends in the same way** in a longer document. The visit
says that its prolog ends at a tag. -/
theorem Policy.tour_extend {policy : Policy} {options : Options} {cursor : Cursor} (more : Bytes)
    (h : (policy.tour options cursor).result = .ok ())
    (hvisited : (policy.tour options cursor).account.sights ≠ []) :
    policy.tour options (cursor.extend more) = (policy.tour options cursor).extend more := by
  unfold tour at h hvisited ⊢
  cases hskip : cursor.skipProlog.2.result with
  | error fault =>
    rw [hskip] at h
    cases h
  | ok done =>
    simp only [hskip] at h hvisited ⊢
    -- without a root element, nothing is visited
    have hmore : cursor.skipProlog.1.isEof = false := by
      cases heof : cursor.skipProlog.1.isEof with
      | false => rfl
      | true =>
        rw [Tour.start, heof, if_pos rfl, Tour.run_ended] at hvisited
        exact absurd rfl hvisited
    have hlonger : (cursor.extend more).skipProlog.1 = cursor.skipProlog.1.extend more ∧
        (cursor.extend more).skipProlog.2.result = .ok () := Cursor.skipProlog_extend hskip hmore
    simp only [hlonger.1, hlonger.2]
    rw [Tour.start_extend hmore (Tour.isFine_of_run h), Tour.run_extend h]

/-- **What follows the consumed part of a document never matters.** Let a policy's parse of
`document` end with `.ok ()`, and visit a node at least (`ended.sights ≠ []`). Whatever bytes `more`
follow, the parse of `document ++ more` makes the same visits, reads the same bodies, ends well and
at the same place. -/
theorem parse_append (policy : Policy) (options : Options) {document : Bytes} (more : Bytes)
    {fuel fuel' : Nat} {ended : Walking} (hfuel : document.length < fuel)
    (hfuel' : (document ++ more).length < fuel')
    (hrun : policy.parse fuel (.ofDocument document options) = some (ended, .ok ()))
    (hvisited : ended.sights ≠ []) :
    ∃ ended', policy.parse fuel' (.ofDocument (document ++ more) options) =
        some (ended', .ok ()) ∧
      ended'.sights = ended.sights ∧ ended'.bodies = ended.bodies ∧
      ended'.reader.position = ended.reader.position ∧ ended'.reader.scopes = [] := by
  obtain ⟨same, result, hsame, -, htour⟩ := parse_eq_tour policy options hfuel
  obtain ⟨hended, rfl⟩ := Prod.mk.inj (Option.some.inj (hsame.symm.trans hrun))
  subst hended
  obtain ⟨ended', result', hrun', hscopes, htour'⟩ := parse_eq_tour policy options hfuel'
  -- both parses are tours, and the tour of the longer document is the extended one
  have hextended : policy.tour options (.ofDocument (document ++ more)) =
      (policy.tour options (.ofDocument document)).extend more :=
    policy.tour_extend more (by rw [htour]) (by rw [htour]; exact hvisited)
  rw [htour, htour'] at hextended
  obtain ⟨hcursor, haccount, hresult⟩ := Finish.mk.inj hextended
  obtain rfl : result' = .ok () := hresult
  refine ⟨ended', hrun', ?_, ?_, ?_, hscopes⟩
  · exact congrArg Account.sights haccount
  · exact congrArg Account.bodies haccount
  · have hplace : ended'.reader.cursor = same.reader.cursor.extend more := hcursor
    rw [Reader.position, hplace]
    rfl

/-- The element `<a/>` behind `<a><b>x</b></a>` changes nothing: the body `x` of `b` is read, and
the parse ends at offset 15, where the document ended. -/
theorem parse_append_documentWithBody :
    ∃ ended ended', readSecond.parse 16 (.ofDocument documentWithBody .lenient) =
        some (ended, .ok ()) ∧ ended.sights ≠ [] ∧
      readSecond.parse 20 (.ofDocument (documentWithBody ++ [0x3C, 0x61, 0x2F, 0x3E]) .lenient) =
        some (ended', .ok ()) ∧
      ended'.sights = ended.sights ∧ ended'.bodies = [[0x78]] ∧ ended'.reader.position = 15 := by
  have hfuel : documentWithBody.length < 16 := by decide
  have hfuel' : (documentWithBody ++ [0x3C, 0x61, 0x2F, 0x3E]).length < 20 := by decide
  obtain ⟨ended, result, hrun, -, htour⟩ := parse_eq_tour readSecond .lenient hfuel
  -- what the tour comes to is computed, and the parse comes to the same
  have hok : (readSecond.tour .lenient (.ofDocument documentWithBody)).result = .ok () := by
    with_unfolding_all rfl
  have hsights : (readSecond.tour .lenient (.ofDocument documentWithBody)).account.sights ≠ [] := by
    decide +kernel
  have hbodies : (readSecond.tour .lenient (.ofDocument documentWithBody)).account.bodies =
      [[0x78]] := by decide +kernel
  have hposition : (readSecond.tour .lenient (.ofDocument documentWithBody)).cursor.position = 15 := by
    decide +kernel
  rw [htour] at hok hsights hbodies hposition
  obtain rfl : result = .ok () := hok
  have hvisited : ended.sights ≠ [] := hsights
  obtain ⟨ended', hrun', hsame, hbodies', hposition', -⟩ :=
    parse_append readSecond .lenient [0x3C, 0x61, 0x2F, 0x3E] hfuel hfuel' hrun hvisited
  exact ⟨ended, ended', hrun, hvisited, hrun', hsame, hbodies'.trans hbodies,
    hposition'.trans hposition⟩

end TagWalk
