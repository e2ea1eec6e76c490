import TagWalk.Proofs.Progress

/-! # Flat scans

A visitor that descends into everything meets the nodes of a document in the order of their tags, and
one counter is enough to say at which depth. A **flat scan** does just that: it goes through the tags
once, counts up at an opening tag and down at a closing one, and never looks for the closing tag of
anything.

* **`FlatScan.loop`** — the tags behind a root element, until the counter is back at zero.
* **`flatScan`** — the prolog, the root element, and the loop.
* **`recorder`** — the visitor that records every node with its depth, and descends.
* **`parse_recorder_eq_flatScan`** — on every document, well formed or not, the recorder comes to
  what the flat scan comes to. -/

namespace TagWalk

/-- The node written in a tag, with its body behind the tag: `Reader.openNode` without the log and
the move. -/
def Cursor.decodeTag (cursor : Cursor) (overflow : Overflow) (tag : Tag) : Except Fault Node :=
  let text := cursor.document.slice (tag.start + 1) tag.stop
  (Declaration.decode overflow tag.start text).result.map (⟨·, (cursor.passTag tag).position⟩)

section DecodeTag

variable {cursor : Cursor} {overflow : Overflow} {tag : Tag}

/-- A tag is a node when its text is a declaration: the text is decoded into `node.toDeclaration`,
and the body starts where `passTag` leads. -/
theorem Cursor.decodeTag_eq_ok_iff {node : Node} :
    cursor.decodeTag overflow tag = .ok node ↔
      (Declaration.decode overflow tag.start
          (cursor.document.slice (tag.start + 1) tag.stop)).result = .ok node.toDeclaration ∧
        node.bodyStart = (cursor.passTag tag).position := by
  obtain ⟨declaration, bodyStart⟩ := node
  unfold decodeTag
  dsimp only
  cases (Declaration.decode overflow tag.start
      (cursor.document.slice (tag.start + 1) tag.stop)).result with
  | error fault => simp [Except.map]
  | ok decoded => simp [Except.map, eq_comm]

/-- A tag is no node when its text is no declaration. -/
theorem Cursor.decodeTag_eq_error_iff {fault : Fault} :
    cursor.decodeTag overflow tag = .error fault ↔
      (Declaration.decode overflow tag.start
        (cursor.document.slice (tag.start + 1) tag.stop)).result = .error fault := by
  unfold decodeTag
  dsimp only
  cases (Declaration.decode overflow tag.start
      (cursor.document.slice (tag.start + 1) tag.stop)).result with
  | error other => simp [Except.map]
  | ok decoded => simp [Except.map]

end DecodeTag

/-- What a scan has come to, without scopes and without a mark. -/
structure FlatScan where
  /-- Where it ended. -/
  cursor : Cursor
  /-- The nodes that were met, each with its depth. -/
  seen : List (Nat × Node)
  /-- Whether it ended well. -/
  result : Except Fault Unit

namespace FlatScan

/-- **An opening tag met with the counter at `count`.** Its node is recorded at depth `count + 1`,
and counted unless it closes itself or the bound on depths forbids it. -/
def meet (options : Options) (count : Nat) (cursor : Cursor) (tag : Tag)
    (seen : List (Nat × Node)) : List (Nat × Node) × Except Fault Nat :=
  match cursor.decodeTag options.overflow tag with
  | .error fault => (seen, .error fault)
  | .ok node =>
      (seen ++ [(count + 1, node)],
        if node.selfClosing then .ok count
        else if options.maxDepth ≤ count + 1 then .error (.depthExceeded options.maxDepth)
        else .ok (count + 1))

/-- **One tag after another**, until the counter is at zero: down at a closing tag, whatever its
name, up at an opening tag that does not close itself, and past markup. -/
def loop (options : Options) (count : Nat) (cursor : Cursor) (seen : List (Nat × Node)) : FlatScan :=
  match count with
  | 0 => ⟨cursor, seen, .ok ()⟩
  | count + 1 =>
      match _h : cursor.nextTag with
      | .error fault => ⟨cursor, seen, .error fault⟩
      | .ok tag =>
          match cursor.kindOf tag with
          | .closing => loop options count (cursor.passTag tag) seen
          | .markup => loop options (count + 1) (cursor.passTag tag) seen
          | .element =>
              match meet options (count + 1) cursor tag seen with
              | (seen, .error fault) => ⟨cursor.passTag tag, seen, .error fault⟩
              | (seen, .ok count) => loop options count (cursor.passTag tag) seen
termination_by cursor.remainingLength
decreasing_by all_goals exact Cursor.remainingLength_passTag ‹_›

/-- **The root element and all that is in it**: the first tag, and `loop` behind it when it was
counted. -/
def root (options : Options) (cursor : Cursor) : FlatScan :=
  match cursor.nextTag with
  | .error fault => ⟨cursor, [], .error fault⟩
  | .ok tag =>
      if cursor.kindOf tag = .closing then ⟨cursor, [], .error (.unexpectedClosingTag tag.start)⟩
      else
        match meet options 0 cursor tag [] with
        | (seen, .error fault) => ⟨cursor.passTag tag, seen, .error fault⟩
        | (seen, .ok count) => loop options count (cursor.passTag tag) seen

end FlatScan

/-- **The flat scan of a document**: the prolog, and `FlatScan.root` behind it. A bound of zero
forbids the root element. -/
def flatScan (options : Options) (document : Bytes) : FlatScan :=
  let cursor := (Cursor.ofDocument document).skipProlog.1
  match (Cursor.ofDocument document).skipProlog.2.result with
  | .error fault => ⟨cursor, [], .error fault⟩
  | .ok () =>
      if cursor.isEof then ⟨cursor, [], .ok ()⟩
      else if options.maxDepth = 0 then ⟨cursor, [], .error (.depthExceeded options.maxDepth)⟩
      else FlatScan.root options cursor

/-- **The recorder**: a visitor that records each node with the number of open scopes,
`(reader.depth, node)`, descends into it, and passes every fault on. -/
def recorder : Cast Unit (List (Nat × Node)) Empty := fun _ node =>
  .inspect fun reader => .get fun seen => .set (seen ++ [(reader.depth, node)]) <|
    .descend node () fun result => .done (result.map fun _ => .proceed)

namespace FlatScan

variable {options : Options} {count : Nat} {cursor : Cursor} {tag : Tag} {node : Node}
  {seen : List (Nat × Node)}

/-! ## The loop, one tag after another -/

/-- With the counter at zero, the loop has ended. -/
theorem loop_zero : loop options 0 cursor seen = ⟨cursor, seen, .ok ()⟩ := by
  rw [loop]

/-- A tag that cannot be found ends the loop where the cursor is, with the fault of `nextTag`. -/
theorem loop_of_error {fault : Fault} (hnext : cursor.nextTag = .error fault) :
    loop options (count + 1) cursor seen = ⟨cursor, seen, .error fault⟩ := by
  rw [loop]
  split
  · rename_i h
    rw [hnext] at h
    cases h
    rfl
  · rename_i h
    rw [hnext] at h
    cases h

/-- A closing tag is counted down, from `count + 1` to `count`. -/
theorem loop_of_closing (hnext : cursor.nextTag = .ok tag) (hkind : cursor.kindOf tag = .closing) :
    loop options (count + 1) cursor seen = loop options count (cursor.passTag tag) seen := by
  rw [loop]
  split
  · rename_i h
    rw [hnext] at h
    cases h
  · rename_i h
    rw [hnext] at h
    cases h
    rw [hkind]

/-- Markup is passed over. -/
theorem loop_of_markup (hnext : cursor.nextTag = .ok tag) (hkind : cursor.kindOf tag = .markup) :
    loop options (count + 1) cursor seen = loop options (count + 1) (cursor.passTag tag) seen := by
  rw [loop]
  split
  · rename_i h
    rw [hnext] at h
    cases h
  · rename_i h
    rw [hnext] at h
    cases h
    rw [hkind]

/-- What the loop comes to behind an opening tag that was met with the counter at `count`: `loop`
with `count` or `count + 1`, or the fault `depthExceeded`. -/
def entered (options : Options) (count : Nat) (node : Node) (cursor : Cursor)
    (seen : List (Nat × Node)) : FlatScan :=
  if node.selfClosing then loop options count cursor seen
  else if options.maxDepth ≤ count + 1 then ⟨cursor, seen, .error (.depthExceeded options.maxDepth)⟩
  else loop options (count + 1) cursor seen

/-- An opening tag that is no declaration ends the loop behind it. -/
theorem loop_of_broken {fault : Fault} (hnext : cursor.nextTag = .ok tag)
    (hkind : cursor.kindOf tag = .element)
    (hdecode : cursor.decodeTag options.overflow tag = .error fault) :
    loop options (count + 1) cursor seen = ⟨cursor.passTag tag, seen, .error fault⟩ := by
  rw [loop]
  split
  · rename_i h
    rw [hnext] at h
    cases h
  · rename_i h
    rw [hnext] at h
    cases h
    rw [hkind]
    simp only [meet, hdecode]

/-- The two ways to go on behind an opening tag are one: both are `entered` behind the tag. -/
theorem match_meet (hdecode : cursor.decodeTag options.overflow tag = .ok node) :
    (match meet options count cursor tag seen with
      | (seen, .error fault) => ⟨cursor.passTag tag, seen, .error fault⟩
      | (seen, .ok count) => loop options count (cursor.passTag tag) seen) =
        entered options count node (cursor.passTag tag) (seen ++ [(count + 1, node)]) := by
  -- `entered` goes on in the loop, or has met a node for which there is no room
  simp only [meet, hdecode, entered]
  split
  · rename_i h
    obtain ⟨rfl, h⟩ := Prod.mk.inj h
    split at h
    · cases h
    · split at h <;> cases h
      simp [*]
  · rename_i h
    obtain ⟨rfl, h⟩ := Prod.mk.inj h
    split at h
    · cases h
      simp [*]
    · split at h <;> cases h
      simp [*]

/-- An opening tag is entered. -/
theorem loop_of_element (hnext : cursor.nextTag = .ok tag) (hkind : cursor.kindOf tag = .element)
    (hdecode : cursor.decodeTag options.overflow tag = .ok node) :
    loop options (count + 1) cursor seen =
      entered options (count + 1) node (cursor.passTag tag) (seen ++ [(count + 2, node)]) := by
  rw [← match_meet hdecode, loop]
  split
  · rename_i h
    rw [hnext] at h
    cases h
  · rename_i h
    rw [hnext] at h
    cases h
    rw [hkind]

/-! ## The recorder keeps step -/

/-- A session in which the recorder works. -/
abbrev Recording := Session Unit (List (Nat × Node)) Empty

/-- What the loop comes to from the place that a session has reached: it goes on there with its
counter, unless the session's work has failed. Then the scan has failed as well. -/
def reached (count : Nat) (session : Recording) : Except Fault Unit → FlatScan
  | .ok () => loop session.reader.options count session.reader.cursor session.state
  | .error fault => ⟨session.reader.cursor, session.state, .error fault⟩

/-- **Work in step with a scan**: the scan goes on from where the work ended,
`scan = reached count ended result`, in the scopes in which it began. When nothing failed, the node
`closed` needs no search for its closing tag, so the reader skips nothing that the scan does not
skip. -/
structure InStep (count : Nat) (before : Recording) (scan : FlatScan) (closed : Node)
    (ended : Recording) (result : Except Fault Unit) : Prop where
  /-- The work does not move back. -/
  remainingLength_le : ended.remainingLength ≤ before.remainingLength
  /-- The scopes are the same. -/
  scopes_eq : ended.reader.scopes = before.reader.scopes
  /-- The options are the same. -/
  options_eq : ended.reader.options = before.reader.options
  /-- The node is closed. -/
  isClosed (ok : result = .ok ()) : ended.reader.isClosed closed = true
  /-- The scan goes on from there. -/
  scan_eq : scan = reached count ended result

/-- Work that goes on in the same scopes, with no more bytes left, stays in step. -/
theorem InStep.of_le {count : Nat} {before between ended : Recording} {scan : FlatScan}
    {closed : Node} {result : Except Fault Unit} (h : InStep count between scan closed ended result)
    (hle : between.remainingLength ≤ before.remainingLength)
    (hscopes : between.reader.scopes = before.reader.scopes)
    (hoptions : between.reader.options = before.reader.options) :
    InStep count before scan closed ended result :=
  ⟨Nat.le_trans h.remainingLength_le hle, h.scopes_eq.trans hscopes, h.options_eq.trans hoptions,
    h.isClosed, h.scan_eq⟩

/-- **An act in step**: with fewer than `bound` bytes left, a visit records the node, and ends in
step with `entered`, a scan that enters its tag. -/
def ActInStep (act : Act Unit (List (Nat × Node)) Empty) (bound : Nat) : Prop :=
  ∀ (node : Node) (session : Recording) (count : Nat),
    session.remainingLength < bound → session.reader.depth = count + 1 →
      ∃ ended result, act () node session = some (ended, result.map fun _ => .proceed) ∧
        InStep count session
          (entered session.reader.options count node session.reader.cursor
            (session.state ++ [(count + 1, node)])) node ended result

section Act

variable {act : Act Unit (List (Nat × Node)) Empty} {bound : Nat}

/-- **A tag that is opened and visited** stays in step, takes bytes, and is answered with
`.proceed`. -/
theorem inStep_visitTag (hact : ActInStep act bound) {session : Recording} {count : Nat} {tag : Tag}
    {node : Node} (hbound : session.remainingLength ≤ bound)
    (hdepth : session.reader.depth = count + 1) (hnext : session.reader.cursor.nextTag = .ok tag)
    (hdecode : session.reader.cursor.decodeTag session.reader.options.overflow tag = .ok node) :
    ∃ ended result, session.visitTag act () tag =
        some (ended, result.map fun _ => (node, .proceed)) ∧
      ended.remainingLength < session.remainingLength ∧
      InStep count session
        (entered session.reader.options count node (session.reader.cursor.passTag tag)
          (session.state ++ [(count + 1, node)])) node ended result := by
  have hopened : (session.openNode tag).1.reader = session.reader.passTag tag :=
    Session.reader_openNode session tag
  have hstate := session.state_openNode tag
  -- passing the tag takes bytes
  have hpassed : (session.openNode tag).1.remainingLength < session.remainingLength := by
    rw [Session.remainingLength, hopened]
    exact Cursor.remainingLength_passTag hnext
  have hdepth' : (session.openNode tag).1.reader.depth = count + 1 := by
    rw [hopened]
    exact hdepth
  obtain ⟨ended, result, hwork, hstep⟩ := hact node
    ((session.openNode tag).1.record (.visit () node tag session.reader.position)) count
    (Nat.lt_of_lt_of_le hpassed hbound) hdepth'
  have hlt : ended.remainingLength < session.remainingLength :=
    Nat.lt_of_le_of_lt hstep.remainingLength_le hpassed
  rw [Session.reader_record, Session.state_record, hstate, hopened] at hstep
  refine ⟨ended.record (.visited node (result.map fun _ => .proceed)), result, ?_, hlt, ?_⟩
  · rw [Session.visitTag_of_ok hdecode hwork]
    cases result <;> rfl
  · refine ⟨Nat.le_of_lt hlt, ?_, ?_, hstep.isClosed, hstep.scan_eq⟩
    · apply hstep.scopes_eq.trans
      rw [Session.reader_record, hopened]
      rfl
    · apply hstep.options_eq.trans
      rw [Session.reader_record, hopened]
      rfl

/-- **The children of a node stay in step** with the `loop` at `count + 1`, by induction on how many
tags are looked at. A child that was descended into is closed, so nothing of it is skipped. -/
theorem inStep_scanChildren (hact : ActInStep act bound) {session : Recording} {count : Nat}
    (parent : Node) {fuel : Nat} (hbound : session.remainingLength ≤ bound)
    (hfuel : session.remainingLength < fuel) (hdepth : session.reader.depth = count + 2) :
    ∃ ended result, Session.scanChildren act parent () fuel session = some (ended, result) ∧
      InStep count session
        (loop session.reader.options (count + 1) session.reader.cursor session.state) parent ended
        result := by
  induction fuel generalizing session with
  | zero => exact absurd hfuel (Nat.not_lt_zero _)
  | succ fuel ih =>
    -- behind a step that takes bytes, the loop and the children go on together
    have hmore : ∀ after : Recording, session.childStep act parent () = some (after, .more) →
        after.remainingLength < session.remainingLength →
        after.reader.scopes = session.reader.scopes →
        after.reader.options = session.reader.options →
        loop session.reader.options (count + 1) session.reader.cursor session.state =
          loop after.reader.options (count + 1) after.reader.cursor after.state →
        ∃ ended result, Session.scanChildren act parent () (fuel + 1) session =
            some (ended, result) ∧
          InStep count session
            (loop session.reader.options (count + 1) session.reader.cursor session.state) parent
            ended result := by
      intro after hstep hlt hscopes hoptions hloop
      have hdepth' : after.reader.depth = count + 2 := by
        rw [Reader.depth, hscopes]
        exact hdepth
      obtain ⟨ended, result, hrest, hagrees⟩ := ih (Nat.le_trans (Nat.le_of_lt hlt) hbound)
        (Nat.lt_of_lt_of_le hlt (Nat.le_of_lt_succ hfuel)) hdepth'
      refine ⟨ended, result, ?_, ?_⟩
      · rw [Session.scanChildren_of_more hstep]
        exact hrest
      · rw [hloop]
        exact hagrees.of_le (Nat.le_of_lt hlt) hscopes hoptions
    cases hnext : session.reader.cursor.nextTag with
    | error fault =>
      exact ⟨session, .error fault,
        Session.scanChildren_of_finished (Session.childStep_of_error hnext), Nat.le_refl _, rfl, rfl,
        by simp, loop_of_error hnext⟩
    | ok tag =>
      have hpassed := Cursor.remainingLength_passTag hnext
      cases hkind : session.reader.cursor.kindOf tag with
      | closing =>
        -- the counter goes down where the children end
        refine ⟨session.close parent tag, .ok (),
          Session.scanChildren_of_finished (Session.childStep_of_closing hnext hkind),
          Nat.le_of_lt hpassed, rfl, rfl, ?_, loop_of_closing hnext hkind⟩
        intro _
        simp [Session.close, Reader.isClosed, Reader.markClosed]
      | markup =>
        exact hmore (session.skipMarkup tag) (Session.childStep_of_markup hnext hkind) hpassed rfl rfl
          (loop_of_markup hnext hkind)
      | element =>
        cases hdecode : session.reader.cursor.decodeTag session.reader.options.overflow tag with
        | error fault =>
          have hopened : (session.openNode tag).1.reader = session.reader.passTag tag :=
            Session.reader_openNode session tag
          refine ⟨(session.openNode tag).1, .error fault, Session.scanChildren_of_finished
            (Session.childStep_of_failed hnext hkind (Session.visitTag_of_error hdecode)),
            ?_, ?_, ?_, by simp, ?_⟩
          · rw [Session.remainingLength, hopened]
            exact Nat.le_of_lt hpassed
          · rw [hopened]
            rfl
          · rw [hopened]
            rfl
          · rw [loop_of_broken hnext hkind hdecode, reached, hopened]
            exact congrArg (FlatScan.mk _ · _) (Session.state_step _ _).symm
        | ok node =>
          obtain ⟨visited, result, hvisit, hlt, hagrees⟩ :=
            inStep_visitTag hact hbound hdepth hnext hdecode
          rw [← loop_of_element hnext hkind hdecode] at hagrees
          cases result with
          | error fault =>
            exact ⟨visited, .error fault, Session.scanChildren_of_finished
              (Session.childStep_of_failed hnext hkind hvisit), hagrees.remainingLength_le,
              hagrees.scopes_eq, hagrees.options_eq, by simp, hagrees.scan_eq⟩
          | ok done =>
            refine hmore visited ?_ hlt hagrees.scopes_eq hagrees.options_eq hagrees.scan_eq
            rw [Session.childStep_of_visited hnext hkind hvisit,
              Session.afterVisit_of_isClosed (hagrees.isClosed rfl)]

/-- **A descent stays in step** with `entered`, a scan that has entered the tag of its node. -/
theorem inStep_descend (hact : ActInStep act bound) {session : Recording} {count fuel : Nat}
    (node : Node) (hbound : session.remainingLength ≤ bound) (hfuel : session.remainingLength < fuel)
    (hdepth : session.reader.depth = count + 1) :
    ∃ ended result, session.descend act fuel node () = some (ended, result) ∧
      InStep count session
        (entered session.reader.options count node session.reader.cursor session.state) node ended
        result := by
  suffices hchildren : ∃ worked result,
      (session.record (.descend node ())).children act fuel node () = some (worked, result) ∧
        InStep count session
          (entered session.reader.options count node session.reader.cursor session.state) node worked
          result by
    obtain ⟨worked, result, hdone, hstep⟩ := hchildren
    exact ⟨worked.record (.descended node result), result, Session.descend_of_children hdone,
      hstep.remainingLength_le, hstep.scopes_eq, hstep.options_eq, hstep.isClosed, hstep.scan_eq⟩
  cases hclosed : node.selfClosing with
  | true =>
    rw [entered, if_pos hclosed]
    refine ⟨_, _, Session.children_of_selfClosing hclosed, Nat.le_refl _, rfl, rfl, ?_, rfl⟩
    intro _
    simp [Reader.isClosed, hclosed]
  | false =>
    rw [entered, if_neg (by simp [hclosed]), Session.children_of_open hclosed]
    by_cases hfull : session.reader.options.maxDepth ≤ count + 1
    · rw [if_pos hfull]
      refine ⟨_, _, Session.withScope_of_full (hdepth.symm ▸ hfull), ?_⟩
      refine ⟨?_, ?_, ?_, nofun, ?_⟩
      · rw [Session.remainingLength, Session.reader_log]
        exact Nat.le_refl _
      · rw [Session.reader_log, Session.reader_record]
      · rw [Session.reader_log, Session.reader_record]
      · simp [reached]
    · rw [if_neg hfull]
      have hroom : (session.record (.descend node ())).reader.depth <
          (session.record (.descend node ())).reader.options.maxDepth := by
        rw [Session.reader_record, hdepth]
        exact Nat.lt_of_not_le hfull
      -- in the new scope, the counter is one higher
      have hentered : ((session.record (.descend node ())).enterScope (some node)).1.reader =
          session.reader.pushScope (some node) := Session.reader_enterScope hroom
      have hremaining := (session.record (.descend node ())).remainingLength_enterScope (some node)
      have hdepth' : ((session.record (.descend node ())).enterScope (some node)).1.reader.depth =
          count + 2 := by
        rw [hentered]
        exact congrArg (· + 1) hdepth
      obtain ⟨worked, result, hdone, hstep⟩ := inStep_scanChildren hact node
        (Nat.le_trans (Nat.le_of_eq hremaining) hbound)
        (Nat.lt_of_le_of_lt (Nat.le_of_eq hremaining) hfuel) hdepth'
      refine ⟨_, _, Session.withScope_of_room hroom hdone, ?_, ?_, ?_, ?_, ?_⟩
      · rw [Session.remainingLength_leaveScope]
        exact Nat.le_trans hstep.remainingLength_le (Nat.le_of_eq hremaining)
      · rw [Session.reader_leaveScope, Reader.scopes_leaveScope, hstep.scopes_eq, hentered]
        rfl
      · rw [Session.reader_leaveScope, Reader.options_leaveScope, hstep.options_eq, hentered]
        rfl
      · intro hok
        rw [Session.reader_leaveScope, Reader.isClosed, Reader.lastClosed_leaveScope]
        exact hstep.isClosed hok
      · have hscan := hstep.scan_eq
        rw [hentered, Session.state_enterScope] at hscan
        apply Eq.trans hscan
        cases result <;> simp [reached]

end Act

/-- **The recorder keeps step**, by induction on the fuel: visits inside of a visit have fewer bytes
left, so `fuel - 1` bounds those for which there is enough. -/
theorem actInStep_perform (fuel : Nat) : ActInStep (perform recorder fuel) (fuel - 1) := by
  induction fuel with
  | zero => exact fun _ _ _ hsession => absurd hsession (Nat.not_lt_zero _)
  | succ fuel ih =>
    intro node session count hsession hdepth
    rw [Nat.add_sub_cancel] at hsession
    have hrecorded : (⟨session.reader, session.state ++ [(count + 1, node)], session.level,
        session.trace⟩ : Recording).remainingLength < fuel := hsession
    obtain ⟨ended, result, hdone, hstep⟩ :=
      inStep_descend ih node (Nat.le_sub_one_of_lt hrecorded) hrecorded hdepth
    refine ⟨ended, result, ?_, hstep.of_le (Nat.le_refl _) rfl rfl⟩
    show (recorder () node).run (perform recorder fuel) fuel session = _
    simp only [recorder, Script.run, hdepth, hdone]

/-- With the counter at zero, there is nothing to go on with. -/
theorem reached_zero (session : Recording) (result : Except Fault Unit) :
    reached 0 session result = ⟨session.reader.cursor, session.state, result⟩ := by
  cases result with
  | error fault => rfl
  | ok done => exact loop_zero

/-- **The root element comes to what the scan comes to**:
`root session.reader.options session.reader.cursor` is told by the session in the end. -/
theorem root_eq_visitRoot {act : Act Unit (List (Nat × Node)) Empty} {bound : Nat}
    (hact : ActInStep act bound) {session : Recording} (hbound : session.remainingLength ≤ bound)
    (hdepth : session.reader.depth = 1) (hstate : session.state = []) :
    ∃ ended result, session.visitRoot act () = some (ended, result) ∧
      root session.reader.options session.reader.cursor =
        ⟨ended.reader.cursor, ended.state, result⟩ := by
  unfold root
  cases hnext : session.reader.cursor.nextTag with
  | error fault => exact ⟨session, _, Session.visitRoot_of_error hnext, by rw [hstate]⟩
  | ok tag =>
    dsimp only
    by_cases hkind : session.reader.cursor.kindOf tag = .closing
    · rw [if_pos hkind]
      exact ⟨session, _, Session.visitRoot_of_closing hnext hkind, by rw [hstate]⟩
    · rw [if_neg hkind]
      cases hdecode : session.reader.cursor.decodeTag session.reader.options.overflow tag with
      | error fault =>
        refine ⟨_, _, Session.visitRoot_of_visitTag hnext hkind (Session.visitTag_of_error hdecode), ?_⟩
        · have hopened : (session.openNode tag).1.state = [] :=
            (session.state_openNode tag).trans hstate
          simp only [meet, hdecode, hopened, Session.reader_openNode]
          rfl
      -- the stack is empty around a root element, so `reached 0` is all there is
      | ok node =>
        obtain ⟨ended, result, hvisit, -, hstep⟩ := inStep_visitTag hact hbound hdepth hnext hdecode
        refine ⟨ended, result, ?_, ?_⟩
        · rw [Session.visitRoot_of_visitTag hnext hkind hvisit]
          cases result <;> rfl
        · rw [match_meet hdecode, ← reached_zero, ← hstep.scan_eq, hstate]

/-- **The work of a parse comes to what the scan comes to**, prolog and root element. -/
theorem flatScan_eq_root {act : Act Unit (List (Nat × Node)) Empty} {bound : Nat}
    (hact : ActInStep act bound) {document : Bytes} {options : Options} {session : Recording}
    (hbound : document.length ≤ bound) (hreader : session.reader = .ofDocument document options)
    (hstate : session.state = []) :
    ∃ ended result, session.root act () = some (ended, result) ∧
      flatScan options document = ⟨ended.reader.cursor, ended.state, result⟩ := by
  have hcursor : session.reader.cursor = .ofDocument document := by
    rw [hreader]
    rfl
  unfold flatScan
  rw [← hcursor]
  cases hskip : session.reader.cursor.skipProlog.2.result with
  | error fault =>
    refine ⟨_, _, Session.root_of_broken hskip, ?_⟩
    rw [Session.reader_skipProlog, Session.state_skipProlog, hstate]
  | ok done =>
    dsimp only
    cases heof : session.reader.cursor.skipProlog.1.isEof with
    | true =>
      refine ⟨_, _, Session.root_of_empty hskip heof, ?_⟩
      rw [if_pos rfl, Session.reader_log, Session.state_log, Session.reader_skipProlog,
        Session.state_skipProlog, hstate]
    | false =>
      rw [if_neg Bool.false_ne_true]
      -- the session is at the front of the document, and has no scopes
      have hoptions : session.reader.options = options := by
        rw [hreader]
        rfl
      have hscopes : session.reader.scopes = [] := by
        rw [hreader]
        rfl
      by_cases hfull : options.maxDepth = 0
      · rw [if_pos hfull]
        refine ⟨_, _, Session.root_of_full hskip heof (hoptions.symm ▸ hfull), ?_⟩
        rw [Session.reader_log, Session.state_log, Session.state_skipProlog, hstate, hoptions,
          Session.reader_skipProlog]
      · rw [if_neg hfull]
        have hroom : session.reader.options.maxDepth ≠ 0 := hoptions.symm ▸ hfull
        have hentered := Session.reader_enterScope_skipProlog hscopes hroom
        have hremaining : (session.skipProlog.1.enterScope none).1.remainingLength ≤ bound := by
          rw [Session.remainingLength_enterScope]
          apply Nat.le_trans session.remainingLength_skipProlog
          rw [Session.remainingLength, hcursor]
          exact hbound
        have hone : (session.skipProlog.1.enterScope none).1.reader.depth = 1 := by
          rw [hentered]
          rfl
        have hnone : (session.skipProlog.1.enterScope none).1.state = [] := by
          rw [Session.state_enterScope, Session.state_skipProlog, hstate]
        obtain ⟨worked, result, hdone, hscan⟩ := root_eq_visitRoot hact hremaining hone hnone
        refine ⟨_, _, Session.root_of_room hskip heof hscopes hroom hdone, ?_⟩
        rw [hentered, hoptions] at hscan
        rw [Session.reader_leaveScope, Reader.cursor_leaveScope, Session.state_leaveScope, ← hscan]

end FlatScan

/-- **The recorder makes a flat scan.** On every document, well formed or not, and with any options,
parsing with the `recorder` ends with the result of `flatScan options document`, one pass over the
tags with a counter: with the same nodes recorded at the same depths, and with the cursor at the
same place. -/
theorem parse_recorder_eq_flatScan (document : Bytes) (options : Options) (fuel : Nat)
    (hfuel : document.length < fuel) :
    ∃ ended, (Session.start (.ofDocument document options) []).parse (perform recorder fuel) () =
        some (ended, (flatScan options document).result) ∧
      ended.state = (flatScan options document).seen ∧
      ended.reader.cursor = (flatScan options document).cursor := by
  have hact : FlatScan.ActInStep (perform recorder fuel) (fuel - 1) :=
    FlatScan.actInStep_perform fuel
  have hbound : document.length ≤ fuel - 1 := Nat.le_sub_one_of_lt hfuel
  -- a new reader has no scopes to drop, so the work of the parse begins at the front of the document
  have hreader : ((Session.start (.ofDocument document options) [] :
      FlatScan.Recording).beginParse ()).reader = .ofDocument document options := rfl
  obtain ⟨ended, result, hdone, hscan⟩ := FlatScan.flatScan_eq_root hact hbound hreader rfl
  rw [hscan]
  exact ⟨ended.record (.parsed result), Session.parse_of_root hdone, rfl, rfl⟩

/-- The document `<a><b/></a>`. -/
def documentWithChild : Bytes := [0x3C, 0x61, 0x3E, 0x3C, 0x62, 0x2F, 0x3E, 0x3C, 0x2F, 0x61, 0x3E]

/-- Its two nodes are recorded at the depths 1 and 2, and the cursor reaches its end, at offset
11. -/
theorem parse_recorder_documentWithChild :
    documentWithChild.length < 12 ∧
      ∃ ended, (Session.start (.ofDocument documentWithChild .lenient) []).parse
          (perform recorder 12) () = some (ended, .ok ()) ∧
        ended.state.map (·.1) = [1, 2] ∧ ended.reader.cursor.position = 11 := by
  have hlength : documentWithChild.length < 12 := by decide
  have hok : (flatScan .lenient documentWithChild).result.isOk = true := by decide +kernel
  have hresult : (flatScan .lenient documentWithChild).result = .ok () := by
    cases h : (flatScan .lenient documentWithChild).result with
    | ok done => rfl
    | error fault =>
      rw [h] at hok
      cases hok
  have hseen : (flatScan .lenient documentWithChild).seen.map (·.1) = [1, 2] := by decide +kernel
  have hposition : (flatScan .lenient documentWithChild).cursor.position = 11 := by decide +kernel
  obtain ⟨ended, hparse, hstate, hcursor⟩ :=
    parse_recorder_eq_flatScan documentWithChild .lenient 12 hlength
  rw [hresult] at hparse
  exact ⟨hlength, ended, hparse, by rw [hstate, hseen], by rw [hcursor, hposition]⟩

end TagWalk
