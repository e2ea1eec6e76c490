import TagWalk.Proofs.Inversion
import TagWalk.Proofs.Prolog

/-! # Work behind other work

A session's trace is only ever added to, and nothing that a reader or a visitor does depends on what
stands in it. So work that begins behind an earlier trace is the same work with that trace in front,
whether or not it comes to an end.

* **`Session.behind`**, **`Outcome.behind`** — a session, and what work comes to, behind a trace.
* **`Reader.HasOpened`** — a reader that has just opened a node, as it is whenever a visitor is called.
* **`Act.Mirrors`** — visitors that do behind a trace what others do without it, wherever they are
  called.
* **`Act.Mirrors.run_behind`** — then so does every script that calls them. -/

namespace TagWalk

variable {ι σ ε α : Type}

namespace Session

/-- A session with some moments in front of its trace: `front ++ session.trace`, and everything else
as it is. -/
def behind (front : Array (Moment ι ε)) (session : Session ι σ ε) : Session ι σ ε :=
  { session with trace := front ++ session.trace }

/-- Behind nothing, a session is itself. -/
@[simp] theorem behind_empty (session : Session ι σ ε) : session.behind #[] = session := by
  simp [behind]

end Session

/-- What work comes to, with some moments in front of the trace; out of fuel, `none` stays
`none`. -/
def Outcome.behind (front : Array (Moment ι ε)) (outcome : Outcome ι σ ε α) : Outcome ι σ ε α :=
  outcome.map fun reached => (reached.1.behind front, reached.2)

/-- Behind nothing, work comes to what it comes to. -/
@[simp] theorem Outcome.behind_empty (outcome : Outcome ι σ ε α) :
    Outcome.behind #[] outcome = outcome := by
  have hid : (fun reached : Session ι σ ε × α => (reached.1.behind #[], reached.2)) = id :=
    funext fun reached => Prod.ext reached.1.behind_empty rfl
  rw [Outcome.behind, hid, Option.map_id]
  rfl

namespace Session

variable (front : Array (Moment ι ε)) (session : Session ι σ ε)

@[simp] theorem reader_behind : (session.behind front).reader = session.reader := rfl

/-- Entering a scope moves no cursor. -/
theorem cursor_enterScope (element : Option Node) :
    (session.enterScope element).1.reader.cursor = session.reader.cursor := by
  rw [enterScope, reader_step, Reader.enterScope]
  split <;> rfl

/-! ## Steps of a session -/

theorem record_behind (event : Event ι ε) :
    (session.behind front).record event = (session.record event).behind front := by
  unfold behind record
  rw [Array.append_push]

theorem log_behind (records : List LogRecord) :
    (session.behind front).log records = (session.log records).behind front := by
  unfold log
  induction records generalizing session with
  | nil => rfl
  | cons record records ih =>
    rw [List.foldl_cons, List.foldl_cons, record_behind]
    exact ih (session.record (.log record))

/-- **A step of the reader** is the same behind a trace: no `operation` sees the trace, and the
records come behind all of it. -/
theorem step_behind (operation : Reader → Reader × Logged α) :
    (session.behind front).step operation =
      ((session.step operation).1.behind front, (session.step operation).2) :=
  Prod.ext (log_behind front { session with reader := (operation session.reader).1 } _) rfl

theorem reset_behind : (session.behind front).reset = session.reset.behind front :=
  record_behind front { session with reader := session.reader.reset } .reset

theorem beginParse_behind (visitor : ι) :
    (session.behind front).beginParse visitor = (session.beginParse visitor).behind front :=
  record_behind front { session with reader := session.reader.dropScopes } (.parse visitor)

theorem leaveScope_behind : (session.behind front).leaveScope = session.leaveScope.behind front :=
  log_behind front { session with reader := session.reader.leaveScope.1 } _

theorem skipMarkup_behind (tag : Tag) :
    (session.behind front).skipMarkup tag = (session.skipMarkup tag).behind front :=
  log_behind front { session with reader := session.reader.passTag tag } _

theorem close_behind (parent : Node) (tag : Tag) :
    (session.behind front).close parent tag = (session.close parent tag).behind front :=
  record_behind front { session with reader := (session.reader.passTag tag).markClosed parent } _

theorem readBody_behind (node : Node) :
    (session.behind front).readBody node =
      ((session.readBody node).1.behind front, (session.readBody node).2) := by
  simp only [readBody, step_behind, record_behind]

theorem skip_behind (node : Node) :
    (session.behind front).skip node =
      ((session.skip node).1.behind front, (session.skip node).2) := by
  simp only [skip, step_behind, record_behind]

theorem afterVisit_behind (child : Node) (signal : Signal) :
    (session.behind front).afterVisit child signal =
      ((session.afterVisit child signal).1.behind front, (session.afterVisit child signal).2) := by
  cases signal with
  | stop => rfl
  | proceed =>
    simp only [afterVisit, reader_behind, skip_behind]
    cases session.reader.isClosed child with
    | true => rfl
    | false =>
      rcases session.skip child with ⟨skipped, fault | body⟩
      · rfl
      · rfl

end Session

/-! ## Visitors that are called -/

/-- **A reader has opened a node**: it is `before.passTag tag` for the tag that was the next one,
and the tag is an element's and was decoded into the node. -/
def Reader.HasOpened (reader : Reader) (node : Node) : Prop :=
  ∃ (before : Reader) (tag : Tag), before.cursor.nextTag = .ok tag ∧
    before.cursor.kindOf tag = .element ∧ (before.openNode tag).2.result = .ok node ∧
      reader = before.passTag tag

/-- **Visitors mirror others** if they do behind a trace what the others do without it, with every
node that the reader has just opened: `mirror` of `session.behind front` is `Outcome.behind front`
of `act`. -/
def Act.Mirrors (front : Array (Moment ι ε)) (act mirror : Act ι σ ε) : Prop :=
  ∀ visitor node (session : Session ι σ ε), session.reader.HasOpened node →
    mirror visitor node (session.behind front) = Outcome.behind front (act visitor node session)

namespace Act.Mirrors

open Session

variable {front : Array (Moment ι ε)} {act mirror : Act ι σ ε} (h : Mirrors front act mirror)

section Traversal

variable (session : Session ι σ ε) (visitor : ι) {node parent : Node} {tag : Tag}

/-- **Work in a scope** mirrors other work in a scope if the work inside does. All of the equations
below move `behind front` from the session to the outcome in this way. -/
theorem withScope_behind {element : Option Node}
    {work work' : Session ι σ ε → Outcome ι σ ε (Except Fault Unit)}
    (hwork : work' ((session.enterScope element).1.behind front) =
      Outcome.behind front (work (session.enterScope element).1)) :
    (session.behind front).withScope element work' =
      Outcome.behind front (session.withScope element work) := by
  have henter : (session.behind front).enterScope element =
      ((session.enterScope element).1.behind front, (session.enterScope element).2) :=
    step_behind _ _ _
  unfold withScope
  rw [henter]
  rcases hentered : session.enterScope element with ⟨entered, fault | done⟩
  · rfl
  · rw [hentered] at hwork
    dsimp only at hwork ⊢
    rw [hwork]
    cases work entered with
    | none => rfl
    | some worked => exact congrArg some (Prod.ext (leaveScope_behind _ _) rfl)

include h

/-- **A visit**, in which the visitors are called. This is the only place where `Mirrors` itself is
used. -/
theorem visit_behind (tag : Tag) (soughtFrom : Nat) (hopened : session.reader.HasOpened node) :
    (session.behind front).visit mirror visitor node tag soughtFrom =
      Outcome.behind front (session.visit act visitor node tag soughtFrom) := by
  have hwork := h visitor node (session.record (.visit visitor node tag soughtFrom)) hopened
  unfold visit
  rw [record_behind, hwork]
  cases act visitor node (session.record (.visit visitor node tag soughtFrom)) with
  | none => rfl
  | some worked => exact congrArg some (Prod.ext (record_behind _ _ _) rfl)

/-- **A node that is opened and visited**, behind a trace: the next tag is an element's, so the
reader `HasOpened` its node. -/
theorem visitTag_behind (hnext : session.reader.cursor.nextTag = .ok tag)
    (hkind : session.reader.cursor.kindOf tag = .element) :
    (session.behind front).visitTag mirror visitor tag =
      Outcome.behind front (session.visitTag act visitor tag) := by
  have hopen : (session.behind front).openNode tag =
      ((session.openNode tag).1.behind front, (session.openNode tag).2) := step_behind _ _ _
  have hreader : (session.openNode tag).1.reader = session.reader.passTag tag := reader_step _ _
  have hresult : (session.openNode tag).2 = (session.reader.openNode tag).2.result := rfl
  unfold visitTag
  rw [hopen]
  rcases hnode : session.openNode tag with ⟨opened, fault | node⟩
  · rfl
  · rw [hnode] at hreader hresult
    have hopened : opened.reader.HasOpened node :=
      ⟨session.reader, tag, hnext, hkind, hresult.symm, hreader⟩
    dsimp only [reader_behind]
    rw [h.visit_behind opened visitor tag session.reader.position hopened]
    cases opened.visit act visitor node tag session.reader.position with
    | none => rfl
    | some visited => rfl

/-- **One tag among the children**, behind a trace: only a child calls a visitor. -/
theorem childStep_behind :
    (session.behind front).childStep mirror parent visitor =
      Outcome.behind front (session.childStep act parent visitor) := by
  cases hnext : session.reader.cursor.nextTag with
  | error fault =>
    simp only [childStep, reader_behind, hnext]
    rfl
  | ok tag =>
    cases hkind : session.reader.cursor.kindOf tag with
    | closing =>
      simp only [childStep, reader_behind, hnext, hkind, close_behind]
      rfl
    | markup =>
      simp only [childStep, reader_behind, hnext, hkind, skipMarkup_behind]
      rfl
    | element =>
      simp only [childStep, reader_behind, hnext, hkind]
      rw [h.visitTag_behind session visitor hnext hkind]
      rcases session.visitTag act visitor tag with _ | ⟨visited, fault | ⟨child, signal⟩⟩
      · rfl
      · rfl
      · exact congrArg some (afterVisit_behind _ _ _ _)

/-- **The children of a node**, by induction on how many tags are looked at, `fuel` on both
sides. -/
theorem scanChildren_behind (fuel : Nat) :
    scanChildren mirror parent visitor fuel (session.behind front) =
      Outcome.behind front (scanChildren act parent visitor fuel session) := by
  induction fuel generalizing session with
  | zero => rfl
  | succ fuel ih =>
    rw [scanChildren, scanChildren, h.childStep_behind]
    rcases session.childStep act parent visitor with _ | ⟨stepped, _ | result⟩
    · rfl
    · exact ih stepped
    · rfl

/-- **A descent** behind a trace: what `children` does, between two events. -/
theorem descend_behind (fuel : Nat) :
    (session.behind front).descend mirror fuel parent visitor =
      Outcome.behind front (session.descend act fuel parent visitor) := by
  have hchildren : ((session.record (.descend parent visitor)).behind front).children mirror fuel parent
      visitor = Outcome.behind front
        ((session.record (.descend parent visitor)).children act fuel parent visitor) := by
    cases hclosed : parent.selfClosing with
    | true =>
      rw [children_of_selfClosing hclosed, children_of_selfClosing hclosed]
      rfl
    | false =>
      rw [children_of_open hclosed, children_of_open hclosed]
      exact withScope_behind _ (h.scanChildren_behind _ visitor fuel)
  unfold descend
  rw [record_behind, hchildren]
  cases (session.record (.descend parent visitor)).children act fuel parent visitor with
  | none => rfl
  | some worked => exact congrArg some (Prod.ext (record_behind _ _ _) rfl)

/-- The visit of a root element, where the next tag is no markup, as is the case behind a prolog. -/
theorem visitRoot_behind (hmarkup : ∀ tag, session.reader.cursor.nextTag = .ok tag →
      session.reader.cursor.kindOf tag ≠ .markup) :
    (session.behind front).visitRoot mirror visitor =
      Outcome.behind front (session.visitRoot act visitor) := by
  cases hnext : session.reader.cursor.nextTag with
  | error fault =>
    simp only [visitRoot, reader_behind, hnext]
    rfl
  | ok tag =>
    cases hkind : session.reader.cursor.kindOf tag with
    | closing =>
      simp only [visitRoot, reader_behind, hnext, hkind, if_true]
      rfl
    | markup => exact absurd hkind (hmarkup tag hnext)
    | element =>
      simp only [visitRoot, reader_behind, hnext, hkind, reduceCtorEq, if_false]
      rw [h.visitTag_behind session visitor hnext hkind]
      cases session.visitTag act visitor tag with
      | none => rfl
      | some visited => rfl

/-- **The work of a parse** behind a trace: the prolog, and the root element that `visitRoot_behind`
is about. -/
theorem root_behind :
    (session.behind front).root mirror visitor = Outcome.behind front (session.root act visitor) := by
  have hskip : (session.behind front).skipProlog =
      (session.skipProlog.1.behind front, session.skipProlog.2) := step_behind _ _ _
  have hreader := session.reader_skipProlog
  have hresult : session.skipProlog.2 = session.reader.cursor.skipProlog.2.result := rfl
  unfold root
  rw [hskip]
  rcases hskipped : session.skipProlog with ⟨skipped, fault | done⟩
  · rfl
  · rw [hskipped] at hreader hresult
    dsimp only at hreader hresult
    by_cases heof : skipped.reader.isEof = true
    · simp only [reader_behind, heof, if_true, log_behind]
      rfl
    · simp only [reader_behind, heof]
      refine withScope_behind skipped (h.visitRoot_behind _ visitor ?_)
      intro tag hnext
      -- the prolog has ended before a tag of another kind
      rw [cursor_enterScope, hreader] at hnext ⊢
      rw [hreader] at heof
      obtain ⟨root, hroot, -, hkind⟩ :=
        Cursor.exists_nextTag_skipProlog hresult.symm (Bool.not_eq_true _ ▸ heof)
      rw [hnext, Except.ok.injEq] at hroot
      exact hroot ▸ hkind

/-- **A parse** behind a trace: it drops scopes and mark, but no moment. -/
theorem parse_behind :
    (session.behind front).parse mirror visitor =
      Outcome.behind front (session.parse act visitor) := by
  unfold parse
  rw [beginParse_behind, h.root_behind]
  cases (session.beginParse visitor).root act visitor with
  | none => rfl
  | some worked => exact congrArg some (Prod.ext (record_behind _ _ _) rfl)

/-- A parse of another document, whose moments come behind the same trace. -/
theorem parseOther_behind (document : Bytes) :
    (session.behind front).parseOther mirror document visitor =
      Outcome.behind front (session.parseOther act document visitor) := by
  have hinner : ((session.behind front).nest document).parse mirror visitor =
      Outcome.behind front ((session.nest document).parse act visitor) :=
    h.parse_behind (session.nest document) visitor
  unfold parseOther
  rw [hinner]
  cases (session.nest document).parse act visitor with
  | none => rfl
  | some inner => rfl

end Traversal

include h

/-- **A script**, request by request: `script.run mirror fuel (session.behind front)` is
`Outcome.behind front` of what `act` makes of the session. -/
theorem run_behind (fuel : Nat) (script : Script ι σ ε α) (session : Session ι σ ε) :
    script.run mirror fuel (session.behind front) =
      Outcome.behind front (script.run act fuel session) := by
  induction script generalizing session with
  | done value => rfl
  | readBody node next ih =>
    rw [Script.run, Script.run, readBody_behind]
    exact ih _ _
  | descend parent visitor next ih =>
    rw [Script.run, Script.run, h.descend_behind]
    cases session.descend act fuel parent visitor with
    | none => rfl
    | some reached => exact ih _ _
  | parse visitor next ih =>
    rw [Script.run, Script.run, h.parse_behind]
    cases session.parse act visitor with
    | none => rfl
    | some reached => exact ih _ _
  | parseOther document visitor next ih =>
    rw [Script.run, Script.run, h.parseOther_behind]
    cases session.parseOther act document visitor with
    | none => rfl
    | some reached => exact ih _ _
  | reset next ih =>
    rw [Script.run, Script.run, reset_behind]
    exact ih _
  | inspect next ih => exact ih _ _
  | get next ih => exact ih _ _
  | set state next ih => exact ih { session with state }
  | remark note next ih =>
    rw [Script.run, Script.run, record_behind]
    exact ih _

end Act.Mirrors

/-- **Visitors do behind a trace what they do without it**, by induction on the fuel: no script can
look at the trace, so `perform cast fuel` mirrors itself. -/
theorem Act.mirrors_perform (front : Array (Moment ι ε)) (cast : Cast ι σ ε) (fuel : Nat) :
    Act.Mirrors front (perform cast fuel) (perform cast fuel) := by
  induction fuel with
  | zero =>
    intro visitor node session _
    rfl
  | succ fuel ih =>
    intro visitor node session _
    exact ih.run_behind fuel (cast visitor node) session

end TagWalk
