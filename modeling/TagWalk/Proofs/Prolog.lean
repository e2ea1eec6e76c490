import TagWalk.Prolog
import TagWalk.Proofs.Search

/-! # Skipping prologs

What `skipProlog` does, one equation for each of its cases, and what holds of it however many
declarations it skips: the document stays, the cursor never moves back, each declaration takes three
bytes at least, and a tag that is left to come is no declaration. -/

namespace TagWalk.Cursor

variable {cursor : Cursor} {tag : Tag}

/-! ## One case after another -/

/-- At the end of the document there is nothing to skip: the cursor stays, and nothing is logged. -/
theorem skipProlog_of_eof (h : cursor.isEof = true) :
    cursor.skipProlog = (cursor, .quiet (.ok ())) := by
  rw [skipProlog, if_pos h]

/-- A tag that cannot be found is reported where the cursor is, with the fault of
`cursor.nextTag`. -/
theorem skipProlog_of_error {fault : Fault} (hmore : cursor.isEof = false)
    (h : cursor.nextTag = .error fault) : cursor.skipProlog = (cursor, .quiet (.error fault)) := by
  rw [skipProlog, if_neg (by simp [hmore])]
  split
  · rename_i hnext
    rw [h] at hnext
    cases hnext
    rfl
  · rename_i hnext
    rw [h] at hnext
    cases hnext

/-- A declaration is passed and logged by its `tag.start`, and skipping goes on behind it, from
`cursor.passTag tag`. -/
theorem skipProlog_of_markup (hmore : cursor.isEof = false) (h : cursor.nextTag = .ok tag)
    (hkind : cursor.kindOf tag = .markup) :
    cursor.skipProlog =
      ((cursor.passTag tag).skipProlog.1,
        ⟨.skippingDeclaration tag.start :: (cursor.passTag tag).skipProlog.2.log,
          (cursor.passTag tag).skipProlog.2.result⟩) := by
  rw [skipProlog, if_neg (by simp [hmore])]
  split
  · rename_i hnext
    rw [h] at hnext
    cases hnext
  · rename_i hnext
    rw [h] at hnext
    cases hnext
    rw [if_pos hkind]

/-- Any other tag ends the prolog, and the cursor moves to its `<`, at `tag.start`. -/
theorem skipProlog_of_tag (hmore : cursor.isEof = false) (h : cursor.nextTag = .ok tag)
    (hkind : cursor.kindOf tag ≠ .markup) :
    cursor.skipProlog = (cursor.setPosition tag.start, .quiet (.ok ())) := by
  rw [skipProlog, if_neg (by simp [hmore])]
  split
  · rename_i hnext
    rw [h] at hnext
    cases hnext
  · rename_i hnext
    rw [h] at hnext
    cases hnext
    rw [if_neg hkind]

/-! ## However many declarations there are -/

/-- Passing a tag moves the cursor just past its `>`, to `tag.stop + 1`. -/
theorem position_passTag (h : cursor.nextTag = .ok tag) :
    (cursor.passTag tag).position = tag.stop + 1 := by
  have hbounds := nextTag_bounds h
  rw [passTag, position_setPosition]
  omega

@[simp] theorem document_passTag (cursor : Cursor) (tag : Tag) :
    (cursor.passTag tag).document = cursor.document := rfl

/-- A declaration has a `?` or a `!` between its brackets, so `tag.start + 2 ≤ tag.stop`. -/
theorem start_add_two_le_of_markup (h : cursor.nextTag = .ok tag)
    (hkind : cursor.kindOf tag = .markup) : tag.start + 2 ≤ tag.stop := by
  have hbounds := nextTag_bounds h
  have hstop := (document_of_nextTag h).2
  have hne : tag.start + 1 ≠ tag.stop := by
    intro heq
    rw [kindOf, byteAt?, heq, hstop] at hkind
    exact absurd hkind (by decide)
  omega

/-- Skipping a prolog leaves the document as it is. -/
@[simp] theorem document_skipProlog (cursor : Cursor) :
    cursor.skipProlog.1.document = cursor.document := by
  fun_induction skipProlog cursor with
  | case1 => rfl
  | case2 => rfl
  | case3 cursor _ tag _ _ stopped skipped hskip ih =>
    rw [hskip] at ih
    exact ih
  | case4 => rfl

/-- **Each skipped declaration takes three bytes at least**, and the cursor never moves back:
`position + 3 * log.length` is at most the place behind the prolog. -/
theorem position_add_le_skipProlog (cursor : Cursor) :
    cursor.position + 3 * cursor.skipProlog.2.log.length ≤ cursor.skipProlog.1.position := by
  fun_induction skipProlog cursor with
  | case1 => simp
  | case2 => simp
  | case3 cursor _ tag hnext hkind stopped skipped hskip ih =>
    rw [hskip, position_passTag hnext] at ih
    have hbounds := nextTag_bounds hnext
    have hlong := start_add_two_le_of_markup hnext hkind
    simp only [List.length_cons] at ih ⊢
    omega
  | case4 cursor _ tag hnext hkind =>
    have hbounds := nextTag_bounds hnext
    simp only [Logged.log_quiet, List.length_nil, position_setPosition]
    omega

/-- **Behind a prolog stands a tag of another kind**, unless the document ends with it: the cursor
is at its `<`, and `kindOf tag ≠ .markup`. -/
theorem exists_nextTag_skipProlog (hresult : cursor.skipProlog.2.result = .ok ())
    (hmore : cursor.skipProlog.1.isEof = false) :
    ∃ tag, cursor.skipProlog.1.nextTag = .ok tag ∧ cursor.skipProlog.1.position = tag.start ∧
      cursor.skipProlog.1.kindOf tag ≠ .markup := by
  fun_induction skipProlog cursor with
  | case1 cursor heof => rw [heof] at hmore; cases hmore
  | case2 => cases hresult
  | case3 cursor _ tag hnext hkind stopped skipped hskip ih =>
    rw [hskip] at ih
    exact ih hresult hmore
  | case4 cursor _ tag hnext hkind =>
    -- the cursor moves back to the `<`, from where the same tag is found
    have hbounds := nextTag_bounds hnext
    refine ⟨tag, nextTag_setPosition_start hnext, ?_, hkind⟩
    rw [position_setPosition]
    omega

/-- **A prolog that cannot be skipped** ends where no tag can be found: the fault is that of
`cursor.skipProlog.1.nextTag`. -/
theorem nextTag_of_skipProlog_error {fault : Fault}
    (hresult : cursor.skipProlog.2.result = .error fault) :
    cursor.skipProlog.1.nextTag = .error fault := by
  fun_induction skipProlog cursor with
  | case1 => cases hresult
  | case2 cursor _ fault' hnext =>
    cases hresult
    exact hnext
  | case3 cursor _ tag hnext hkind stopped skipped hskip ih =>
    rw [hskip] at ih
    exact ih hresult
  | case4 => cases hresult

end TagWalk.Cursor
