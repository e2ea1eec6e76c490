import TagWalk.Traversal

/-! # The steps of a traversal

A traversal that does not run out of fuel has come to its outcome in a few ways only. The lemmas
`…_eq_some` name them for one function each, and the lemmas `…_of_…` say what comes of each of them,
so that later arguments need not open a definition. -/

namespace TagWalk

/-- The reader with one more scope, for the children of a node or for the document. -/
def Reader.pushScope (reader : Reader) (element : Option Node) : Reader :=
  { reader with scopes := Scope.of element :: reader.scopes }

namespace Session

variable {ι σ ε : Type} {act : Act ι σ ε} {visitor : ι} {session after : Session ι σ ε}

/-- A finished visit is the visitor's work between the two events `.visit` and `.visited`, with the
answer of the work. -/
theorem visit_eq_some {node : Node} {tag : Tag} {soughtFrom : Nat} {result : Except Fault Signal} :
    session.visit act visitor node tag soughtFrom = some (after, result) ↔
      ∃ worked, act visitor node (session.record (.visit visitor node tag soughtFrom)) =
        some (worked, result) ∧ worked.record (.visited node result) = after := by
  unfold visit
  cases act visitor node (session.record (.visit visitor node tag soughtFrom)) with
  | none => simp
  | some worked =>
    obtain ⟨worked, answer⟩ := worked
    simp only [Option.some.injEq, Prod.mk.injEq]
    constructor
    · rintro ⟨rfl, rfl⟩
      exact ⟨worked, ⟨rfl, rfl⟩, rfl⟩
    · rintro ⟨_, ⟨rfl, rfl⟩, rfl⟩
      exact ⟨rfl, rfl⟩

/-- **A tag that was opened** is no declaration, or its node was visited; in the first case the
session is the one behind `openNode`. -/
theorem visitTag_eq_some {tag : Tag} {result : Except Fault (Node × Signal)}
    (hrun : session.visitTag act visitor tag = some (after, result)) :
    (∃ fault, (session.openNode tag).2 = .error fault ∧ after = (session.openNode tag).1 ∧
        result = .error fault) ∨
      ∃ node answer, (session.openNode tag).2 = .ok node ∧
        (session.openNode tag).1.visit act visitor node tag session.reader.position =
          some (after, answer) ∧ result = answer.map (node, ·) := by
  unfold visitTag at hrun
  rcases hopen : session.openNode tag with ⟨opened, fault | node⟩
  · rw [hopen] at hrun
    cases hrun
    exact .inl ⟨fault, rfl, rfl, rfl⟩
  · rw [hopen] at hrun
    dsimp only at hrun
    cases hvisit : opened.visit act visitor node tag session.reader.position with
    | none => rw [hvisit] at hrun; cases hrun
    | some visited =>
      rw [hvisit] at hrun
      cases hrun
      exact .inr ⟨node, visited.2, rfl, hvisit, rfl⟩

/-- A tag that failed is no declaration, or its visit failed with the same fault. -/
theorem visitTag_eq_error {tag : Tag} {fault : Fault}
    (hrun : session.visitTag act visitor tag = some (after, .error fault)) :
    ((session.openNode tag).2 = .error fault ∧ after = (session.openNode tag).1) ∨
      ∃ node, (session.openNode tag).2 = .ok node ∧
        (session.openNode tag).1.visit act visitor node tag session.reader.position =
          some (after, .error fault) := by
  rcases visitTag_eq_some hrun with ⟨_, hopen, rfl, hfault⟩ | ⟨node, answer, hopen, hvisit, hanswer⟩
  · cases hfault
    exact .inl ⟨hopen, rfl⟩
  · cases answer with
    | error other =>
      cases hanswer
      exact .inr ⟨node, hopen, hvisit⟩
    | ok signal => cases hanswer

/-- A tag that did not fail was visited, and the answer was `.ok signal`. -/
theorem visitTag_eq_ok {tag : Tag} {child : Node} {signal : Signal}
    (hrun : session.visitTag act visitor tag = some (after, .ok (child, signal))) :
    (session.openNode tag).2 = .ok child ∧
      (session.openNode tag).1.visit act visitor child tag session.reader.position =
        some (after, .ok signal) := by
  rcases visitTag_eq_some hrun with ⟨_, -, -, hfault⟩ | ⟨node, answer, hopen, hvisit, hanswer⟩
  · cases hfault
  · cases answer with
    | error fault => cases hanswer
    | ok other =>
      cases hanswer
      exact ⟨hopen, hvisit⟩

/-- **One tag among the children of a node** is missing, closes the node, is markup, or is a child.
A child's visit fails, and ends the enumeration, or is followed by `afterVisit`. -/
theorem childStep_eq_some {parent : Node} {progress : Progress}
    (hrun : session.childStep act parent visitor = some (after, progress)) :
    (∃ fault, session.reader.cursor.nextTag = .error fault ∧ after = session ∧
        progress = .finished (.error fault)) ∨
      ∃ tag, session.reader.cursor.nextTag = .ok tag ∧
        ((session.reader.cursor.kindOf tag = .closing ∧ after = session.close parent tag ∧
            progress = .finished (.ok ())) ∨
          (session.reader.cursor.kindOf tag = .markup ∧ after = session.skipMarkup tag ∧
            progress = .more) ∨
          (session.reader.cursor.kindOf tag = .element ∧
            ((∃ fault, session.visitTag act visitor tag = some (after, .error fault) ∧
                progress = .finished (.error fault)) ∨
              ∃ visited child signal,
                session.visitTag act visitor tag = some (visited, .ok (child, signal)) ∧
                  visited.afterVisit child signal = (after, progress)))) := by
  unfold childStep at hrun
  cases hnext : session.reader.cursor.nextTag with
  | error fault =>
    rw [hnext] at hrun
    cases hrun
    exact .inl ⟨fault, rfl, rfl, rfl⟩
  | ok tag =>
    rw [hnext] at hrun
    refine .inr ⟨tag, rfl, ?_⟩
    dsimp only at hrun
    cases hkind : session.reader.cursor.kindOf tag with
    | closing =>
      rw [hkind] at hrun
      cases hrun
      exact .inl ⟨rfl, rfl, rfl⟩
    | markup =>
      rw [hkind] at hrun
      cases hrun
      exact .inr (.inl ⟨rfl, rfl, rfl⟩)
    | element =>
      rw [hkind] at hrun
      dsimp only at hrun
      refine .inr (.inr ⟨rfl, ?_⟩)
      -- the visit may never end, may fail, or may be answered
      rcases hvisit : session.visitTag act visitor tag with _ | ⟨visited, fault | ⟨child, signal⟩⟩
      · rw [hvisit] at hrun
        cases hrun
      · rw [hvisit] at hrun
        cases hrun
        exact .inl ⟨fault, rfl, rfl⟩
      · rw [hvisit] at hrun
        exact .inr ⟨visited, child, signal, rfl, Option.some.inj hrun⟩

/-- A finished descent is the work on the children between the two events `.descend` and
`.descended`. -/
theorem descend_eq_some {fuel : Nat} {parent : Node} {result : Except Fault Unit}
    (hrun : session.descend act fuel parent visitor = some (after, result)) :
    ∃ worked, (session.record (.descend parent visitor)).children act fuel parent visitor =
        some (worked, result) ∧ after = worked.record (.descended parent result) := by
  unfold descend at hrun
  split at hrun
  · cases hrun
  · rename_i worked answer hwork
    cases hrun
    exact ⟨worked, hwork, rfl⟩

/-- A finished parse is the work on the root element between the two events `.parse` and
`.parsed`. -/
theorem parse_eq_some {result : Except Fault Unit}
    (hrun : session.parse act visitor = some (after, result)) :
    ∃ worked, (session.beginParse visitor).root act visitor = some (worked, result) ∧
      after = worked.record (.parsed result) := by
  unfold parse at hrun
  split at hrun
  · cases hrun
  · rename_i worked answer hwork
    cases hrun
    exact ⟨worked, hwork, rfl⟩

/-- **The work of a parse** ends in the prolog, at the end of the document, or with the root element
in the scope of the document. -/
theorem root_eq_some {result : Except Fault Unit}
    (hrun : session.root act visitor = some (after, result)) :
    (∃ fault, session.skipProlog.2 = .error fault ∧ after = session.skipProlog.1 ∧
        result = .error fault) ∨
      session.skipProlog.2 = .ok () ∧
        ((session.skipProlog.1.reader.isEof = true ∧
            after = session.skipProlog.1.log [.noRootElement] ∧ result = .ok ()) ∨
          (session.skipProlog.1.reader.isEof = false ∧
            session.skipProlog.1.withScope none (visitRoot act visitor) =
              some (after, result))) := by
  unfold root at hrun
  rcases hskipped : session.skipProlog with ⟨skipped, fault | ⟨⟨⟩⟩⟩
  · rw [hskipped] at hrun
    cases hrun
    exact .inl ⟨fault, rfl, rfl, rfl⟩
  · rw [hskipped] at hrun
    dsimp only at hrun
    refine .inr ⟨rfl, ?_⟩
    -- behind the prolog, the document is at its end or the root element is there
    split at hrun
    · rename_i heof
      cases hrun
      exact .inl ⟨heof, rfl, rfl⟩
    · rename_i hmore
      exact .inr ⟨Bool.not_eq_true _ ▸ hmore, hrun⟩

/-- **The root element** is missing, is a closing tag, or was opened; then only the fault of its
visit matters. -/
theorem visitRoot_eq_some {result : Except Fault Unit}
    (hrun : session.visitRoot act visitor = some (after, result)) :
    (∃ fault, session.reader.cursor.nextTag = .error fault ∧ after = session ∧
        result = .error fault) ∨
      ∃ tag, session.reader.cursor.nextTag = .ok tag ∧
        ((session.reader.cursor.kindOf tag = .closing ∧ after = session ∧
            result = .error (.unexpectedClosingTag tag.start)) ∨
          (session.reader.cursor.kindOf tag ≠ .closing ∧ ∃ answer,
            session.visitTag act visitor tag = some (after, answer) ∧
              result = answer.map fun _ => ())) := by
  unfold visitRoot at hrun
  cases hnext : session.reader.cursor.nextTag with
  | error fault =>
    rw [hnext] at hrun
    cases hrun
    exact .inl ⟨fault, rfl, rfl, rfl⟩
  | ok tag =>
    rw [hnext] at hrun
    refine .inr ⟨tag, rfl, ?_⟩
    dsimp only at hrun
    split at hrun
    · rename_i hkind
      cases hrun
      exact .inl ⟨hkind, rfl, rfl⟩
    · rename_i hkind
      split at hrun
      · cases hrun
      · rename_i visited answer hvisit
        cases hrun
        exact .inr ⟨hkind, answer, hvisit, rfl⟩

/-- A finished parse of another document is one by a session of its own, `session.nest document`,
from which the reader returns. -/
theorem parseOther_eq_some {document : Bytes} {result : Except Fault Unit}
    (hrun : session.parseOther act document visitor = some (after, result)) :
    ∃ inner, (session.nest document).parse act visitor = some (inner, result) ∧
      after = inner.unnest session.reader session.level := by
  unfold parseOther at hrun
  split at hrun
  · cases hrun
  · rename_i inner answer hinner
    cases hrun
    exact ⟨inner, hinner, rfl⟩

/-! ## One step after another -/

section Steps

variable {parent child : Node} {tag : Tag} {fault : Fault} {fuel : Nat} {signal : Signal}
  {visited : Session ι σ ε}

/-- Without a next tag, the children end with a fault. -/
theorem childStep_of_error (hnext : session.reader.cursor.nextTag = .error fault) :
    session.childStep act parent visitor = some (session, .finished (.error fault)) := by
  rw [childStep, hnext]

/-- A closing tag ends the children. -/
theorem childStep_of_closing (hnext : session.reader.cursor.nextTag = .ok tag)
    (hkind : session.reader.cursor.kindOf tag = .closing) :
    session.childStep act parent visitor = some (session.close parent tag, .finished (.ok ())) := by
  simp only [childStep, hnext, hkind]

/-- Markup is passed over. -/
theorem childStep_of_markup (hnext : session.reader.cursor.nextTag = .ok tag)
    (hkind : session.reader.cursor.kindOf tag = .markup) :
    session.childStep act parent visitor = some (session.skipMarkup tag, .more) := by
  simp only [childStep, hnext, hkind]

/-- A child that fails ends the children, with its fault. -/
theorem childStep_of_failed (hnext : session.reader.cursor.nextTag = .ok tag)
    (hkind : session.reader.cursor.kindOf tag = .element)
    (hvisit : session.visitTag act visitor tag = some (visited, .error fault)) :
    session.childStep act parent visitor = some (visited, .finished (.error fault)) := by
  simp only [childStep, hnext, hkind, hvisit]

/-- Behind a child that was visited comes what `afterVisit` does: what is left of it is skipped. -/
theorem childStep_of_visited (hnext : session.reader.cursor.nextTag = .ok tag)
    (hkind : session.reader.cursor.kindOf tag = .element)
    (hvisit : session.visitTag act visitor tag = some (visited, .ok (child, signal))) :
    session.childStep act parent visitor = some (visited.afterVisit child signal) := by
  simp only [childStep, hnext, hkind, hvisit]

/-- A child that is closed already leaves nothing to skip. -/
theorem afterVisit_of_isClosed (h : session.reader.isClosed child = true) :
    session.afterVisit child .proceed = (session, .more) := by
  simp only [afterVisit, h, if_true]

/-- What is left of a child cannot be skipped where its body cannot be read. -/
theorem afterVisit_of_unread (h : session.reader.isClosed child = false)
    (hread : (session.reader.readBody child).2.result = .error fault) :
    session.afterVisit child .proceed = ((session.skip child).1, .finished (.error fault)) := by
  have hpair : session.skip child = ((session.skip child).1, .error fault) := Prod.ext rfl hread
  rw [afterVisit]
  simp only [h, Bool.false_eq_true, if_false]
  rw [hpair]

/-- **What is left of a child is skipped** by reading its body, and then there may be `.more`
children. -/
theorem afterVisit_of_read {body : Bytes} (h : session.reader.isClosed child = false)
    (hread : (session.reader.readBody child).2.result = .ok body) :
    session.afterVisit child .proceed = ((session.skip child).1, .more) := by
  have hpair : session.skip child = ((session.skip child).1, .ok body) := Prod.ext rfl hread
  rw [afterVisit]
  simp only [h, Bool.false_eq_true, if_false]
  rw [hpair]

/-- **What follows a visit** among the children: a stop ends them, a child that `isClosed` is left
alone, and any other one is skipped, whether or not that works. -/
theorem afterVisit_cases (session : Session ι σ ε) (child : Node) (signal : Signal) :
    (signal = .stop ∧ session.afterVisit child signal = (session, .finished (.ok ()))) ∨
      (signal = .proceed ∧ session.reader.isClosed child = true ∧
        session.afterVisit child signal = (session, .more)) ∨
      (signal = .proceed ∧ session.reader.isClosed child = false ∧
        ((∃ fault, (session.reader.readBody child).2.result = .error fault ∧
            session.afterVisit child signal =
              ((session.skip child).1, .finished (.error fault))) ∨
          ∃ body, (session.reader.readBody child).2.result = .ok body ∧
            session.afterVisit child signal = ((session.skip child).1, .more))) := by
  cases signal with
  | stop => exact .inl ⟨rfl, rfl⟩
  | proceed =>
    cases hclosed : session.reader.isClosed child with
    | true => exact .inr (.inl ⟨rfl, rfl, afterVisit_of_isClosed hclosed⟩)
    | false =>
      refine .inr (.inr ⟨rfl, rfl, ?_⟩)
      cases hread : (session.reader.readBody child).2.result with
      | error fault => exact .inl ⟨fault, rfl, afterVisit_of_unread hclosed hread⟩
      | ok body => exact .inr ⟨body, rfl, afterVisit_of_read hclosed hread⟩

/-- **The children of a node** end with a step, or go on behind it with less fuel. -/
theorem scanChildren_eq_some {result : Except Fault Unit}
    (hrun : scanChildren act parent visitor (fuel + 1) session = some (after, result)) :
    session.childStep act parent visitor = some (after, .finished result) ∨
      ∃ stepped, session.childStep act parent visitor = some (stepped, .more) ∧
        scanChildren act parent visitor fuel stepped = some (after, result) := by
  rw [scanChildren] at hrun
  split at hrun
  · cases hrun
  · rename_i hstep
    cases hrun
    exact .inl hstep
  · rename_i stepped hstep
    exact .inr ⟨stepped, hstep, hrun⟩

/-- A step that ends the children is the last one. -/
theorem scanChildren_of_finished {result : Except Fault Unit}
    (hstep : session.childStep act parent visitor = some (after, .finished result)) :
    scanChildren act parent visitor (fuel + 1) session = some (after, result) := by
  rw [scanChildren, hstep]

/-- After any other step, the children go on. -/
theorem scanChildren_of_more
    (hstep : session.childStep act parent visitor = some (after, .more)) :
    scanChildren act parent visitor (fuel + 1) session =
      scanChildren act parent visitor fuel after := by
  rw [scanChildren, hstep]

/-- A tag that is no declaration is reported behind it. -/
theorem visitTag_of_error (hopen : (session.openNode tag).2 = .error fault) :
    session.visitTag act visitor tag = some ((session.openNode tag).1, .error fault) := by
  have hpair : session.openNode tag = ((session.openNode tag).1, .error fault) := Prod.ext rfl hopen
  unfold visitTag
  rw [hpair]

/-- The node of any other tag is visited: what `act` makes of it stands between the two events. -/
theorem visitTag_of_ok {answer : Except Fault Signal} (hopen : (session.openNode tag).2 = .ok child)
    (hwork : act visitor child ((session.openNode tag).1.record
      (.visit visitor child tag session.reader.position)) = some (visited, answer)) :
    session.visitTag act visitor tag =
      some (visited.record (.visited child answer), answer.map (child, ·)) := by
  have hpair : session.openNode tag = ((session.openNode tag).1, .ok child) := Prod.ext rfl hopen
  unfold visitTag
  rw [hpair]
  dsimp only
  rw [visit_eq_some.mpr ⟨visited, hwork, rfl⟩]

/-! ## The shared state

Only visitors change the state that they share, so what a reader does by itself leaves it alone. -/

@[simp] theorem state_openNode (session : Session ι σ ε) (tag : Tag) :
    (session.openNode tag).1.state = session.state := state_step _ _

@[simp] theorem state_readBody (session : Session ι σ ε) (node : Node) :
    (session.readBody node).1.state = session.state :=
  (state_record _ _).trans (state_step session (·.readBody node))

@[simp] theorem state_skip (session : Session ι σ ε) (node : Node) :
    (session.skip node).1.state = session.state :=
  (state_record _ _).trans (state_step session (·.readBody node))

@[simp] theorem state_skipMarkup (session : Session ι σ ε) (tag : Tag) :
    (session.skipMarkup tag).state = session.state := state_log _ _

/-- Skipping what is left of a child visits nothing. -/
@[simp] theorem state_afterVisit (session : Session ι σ ε) (child : Node) (signal : Signal) :
    (session.afterVisit child signal).1.state = session.state := by
  rcases session.afterVisit_cases child signal with ⟨-, h⟩ | ⟨-, -, h⟩ | ⟨-, -, ⟨_, -, h⟩ | ⟨_, -, h⟩⟩
  · rw [h]
  · rw [h]
  · rw [h, state_skip]
  · rw [h, state_skip]

/-! ## Scopes -/

/-- With room for it, a scope is opened: `session.reader.pushScope element`. -/
theorem reader_enterScope {element : Option Node}
    (room : session.reader.depth < session.reader.options.maxDepth) :
    (session.enterScope element).1.reader = session.reader.pushScope element := by
  simp [enterScope, Reader.enterScope, Nat.not_le.mpr room, Reader.pushScope]

@[simp] theorem state_enterScope (session : Session ι σ ε) (element : Option Node) :
    (session.enterScope element).1.state = session.state := state_step _ _

@[simp] theorem level_enterScope (session : Session ι σ ε) (element : Option Node) :
    (session.enterScope element).1.level = session.level := level_step _ _

@[simp] theorem reader_leaveScope (session : Session ι σ ε) :
    session.leaveScope.reader = session.reader.leaveScope.1 := by
  simp [leaveScope]

@[simp] theorem state_leaveScope (session : Session ι σ ε) :
    session.leaveScope.state = session.state := by
  simp [leaveScope]

@[simp] theorem level_leaveScope (session : Session ι σ ε) :
    session.leaveScope.level = session.level := by
  simp [leaveScope]

/-- Without room for the scope there is no work, and the fault is `depthExceeded` with the bound of
the options. -/
theorem withScope_of_full {element : Option Node}
    {work : Session ι σ ε → Outcome ι σ ε (Except Fault Unit)}
    (full : session.reader.options.maxDepth ≤ session.reader.depth) :
    session.withScope element work = some (session.log [.scopesFull session.reader.depth],
      .error (.depthExceeded session.reader.options.maxDepth)) := by
  simp only [withScope, enterScope, step, Reader.enterScope, if_pos full]

/-- With room for it, nothing refuses the scope. -/
theorem enterScope_of_room {element : Option Node}
    (room : session.reader.depth < session.reader.options.maxDepth) :
    session.enterScope element = ((session.enterScope element).1, .ok ()) := by
  refine Prod.ext rfl ?_
  simp [enterScope, Reader.enterScope, Nat.not_le.mpr room]

/-- With room for it, the work is done in the scope, which is then left. -/
theorem withScope_of_room {element : Option Node} {result : Except Fault Unit}
    {work : Session ι σ ε → Outcome ι σ ε (Except Fault Unit)}
    (room : session.reader.depth < session.reader.options.maxDepth)
    (hwork : work (session.enterScope element).1 = some (visited, result)) :
    session.withScope element work = some (visited.leaveScope, result) := by
  unfold withScope
  rw [enterScope_of_room room]
  dsimp only
  rw [hwork]

/-- Work that does not end in the scope does not end: `none` inside is `none` outside. -/
theorem withScope_of_none {element : Option Node}
    {work : Session ι σ ε → Outcome ι σ ε (Except Fault Unit)}
    (room : session.reader.depth < session.reader.options.maxDepth)
    (hwork : work (session.enterScope element).1 = none) :
    session.withScope element work = none := by
  unfold withScope
  rw [enterScope_of_room room]
  dsimp only
  rw [hwork]

/-- **Work in a scope** was refused the scope, or was done inside it with the same result, and the
scope was left. -/
theorem withScope_eq_some {element : Option Node} {result : Except Fault Unit}
    {work : Session ι σ ε → Outcome ι σ ε (Except Fault Unit)}
    (hrun : session.withScope element work = some (after, result)) :
    (session.reader.options.maxDepth ≤ session.reader.depth ∧
        after = session.log [.scopesFull session.reader.depth] ∧
        result = .error (.depthExceeded session.reader.options.maxDepth)) ∨
      session.reader.depth < session.reader.options.maxDepth ∧
        ∃ worked, work (session.enterScope element).1 = some (worked, result) ∧
          after = worked.leaveScope := by
  by_cases hfull : session.reader.options.maxDepth ≤ session.reader.depth
  · rw [withScope_of_full hfull] at hrun
    cases hrun
    exact .inl ⟨hfull, rfl, rfl⟩
  · -- there is room, and the work decides
    have hroom := Nat.lt_of_not_le hfull
    refine .inr ⟨hroom, ?_⟩
    cases hwork : work (session.enterScope element).1 with
    | none =>
      rw [withScope_of_none hroom hwork] at hrun
      cases hrun
    | some outcome =>
      rw [withScope_of_room hroom hwork] at hrun
      cases hrun
      exact ⟨outcome.1, rfl, rfl⟩

/-! ## Descents and parses -/

/-- A node that closes itself has no children, and is marked. -/
theorem children_of_selfClosing (hclosed : parent.selfClosing = true) :
    session.children act fuel parent visitor =
      some ({ session with reader := session.reader.markClosed parent }, .ok ()) := by
  rw [children, if_pos hclosed]

/-- The children of any other node are enumerated in a scope. -/
theorem children_of_open (hopen : parent.selfClosing = false) :
    session.children act fuel parent visitor =
      session.withScope (some parent) (scanChildren act parent visitor fuel) := by
  rw [children, hopen]
  rfl

/-- A descent is the work on the children between two events. -/
theorem descend_of_children {result : Except Fault Unit}
    (hwork : (session.record (.descend parent visitor)).children act fuel parent visitor =
      some (visited, result)) :
    session.descend act fuel parent visitor =
      some (visited.record (.descended parent result), result) := by
  rw [descend, hwork]

/-- A parse is the work on the root element between two events. -/
theorem parse_of_root {result : Except Fault Unit}
    (hwork : (session.beginParse visitor).root act visitor = some (visited, result)) :
    session.parse act visitor = some (visited.record (.parsed result), result) := by
  rw [parse, hwork]

/-- Without a next tag, there is no root element. -/
theorem visitRoot_of_error (hnext : session.reader.cursor.nextTag = .error fault) :
    session.visitRoot act visitor = some (session, .error fault) := by
  rw [visitRoot, hnext]

/-- A closing tag is no root element. -/
theorem visitRoot_of_closing (hnext : session.reader.cursor.nextTag = .ok tag)
    (hkind : session.reader.cursor.kindOf tag = .closing) :
    session.visitRoot act visitor = some (session, .error (.unexpectedClosingTag tag.start)) := by
  simp only [visitRoot, hnext, hkind, if_true]

/-- The root element is visited, unless its tag is a closing tag. -/
theorem visitRoot_of_visitTag {answer : Except Fault (Node × Signal)}
    (hnext : session.reader.cursor.nextTag = .ok tag)
    (hkind : session.reader.cursor.kindOf tag ≠ .closing)
    (hvisit : session.visitTag act visitor tag = some (visited, answer)) :
    session.visitRoot act visitor = some (visited, answer.map fun _ => ()) := by
  simp only [visitRoot, hnext, hkind, if_false, hvisit]

/-- Skipping the prolog moves the reader to its end. -/
@[simp] theorem reader_skipProlog (session : Session ι σ ε) :
    session.skipProlog.1.reader =
      { session.reader with cursor := session.reader.cursor.skipProlog.1 } := by
  simp [skipProlog]

@[simp] theorem state_skipProlog (session : Session ι σ ε) :
    session.skipProlog.1.state = session.state := state_step _ _

/-- A broken prolog ends the work of a parse where `skipProlog` failed. -/
theorem root_of_broken (hskip : session.reader.cursor.skipProlog.2.result = .error fault) :
    session.root act visitor = some (session.skipProlog.1, .error fault) := by
  have hpair : session.skipProlog = (session.skipProlog.1, .error fault) := Prod.ext rfl hskip
  unfold root
  rw [hpair]

/-- A document that ends with its prolog has no root element; that is logged, and no failure. -/
theorem root_of_empty (hskip : session.reader.cursor.skipProlog.2.result = .ok ())
    (heof : session.reader.cursor.skipProlog.1.isEof = true) :
    session.root act visitor = some (session.skipProlog.1.log [.noRootElement], .ok ()) := by
  have hpair : session.skipProlog = (session.skipProlog.1, .ok ()) := Prod.ext rfl hskip
  have heof' : session.skipProlog.1.reader.isEof = true := by
    rw [reader_skipProlog]
    exact heof
  unfold root
  rw [hpair]
  exact if_pos heof'

/-- Behind any other prolog, the root element is visited in the document's scope. -/
theorem root_of_element (hskip : session.reader.cursor.skipProlog.2.result = .ok ())
    (hmore : session.reader.cursor.skipProlog.1.isEof = false) :
    session.root act visitor = session.skipProlog.1.withScope none (visitRoot act visitor) := by
  have hpair : session.skipProlog = (session.skipProlog.1, .ok ()) := Prod.ext rfl hskip
  have hmore' : ¬ session.skipProlog.1.reader.isEof = true := by
    rw [reader_skipProlog, Reader.isEof, hmore]
    exact Bool.false_ne_true
  unfold root
  rw [hpair]
  exact if_neg hmore'

/-- The reader at the root element, in the document's scope. -/
theorem reader_enterScope_skipProlog (hscopes : session.reader.scopes = [])
    (hroom : session.reader.options.maxDepth ≠ 0) :
    (session.skipProlog.1.enterScope none).1.reader =
      { session.reader with
        cursor := session.reader.cursor.skipProlog.1, scopes := [Scope.of none] } := by
  have hdepth : session.skipProlog.1.reader.depth < session.skipProlog.1.reader.options.maxDepth := by
    rw [reader_skipProlog, Reader.depth, hscopes]
    exact Nat.pos_of_ne_zero hroom
  rw [reader_enterScope hdepth, reader_skipProlog, Reader.pushScope, hscopes]

/-- Without room for any scope, there is no work on the root element. -/
theorem root_of_full (hskip : session.reader.cursor.skipProlog.2.result = .ok ())
    (hmore : session.reader.cursor.skipProlog.1.isEof = false)
    (hfull : session.reader.options.maxDepth = 0) :
    session.root act visitor = some (session.skipProlog.1.log
      [.scopesFull session.skipProlog.1.reader.depth],
        .error (.depthExceeded session.reader.options.maxDepth)) := by
  have hnone : session.skipProlog.1.reader.options.maxDepth ≤ session.skipProlog.1.reader.depth := by
    rw [reader_skipProlog, hfull]
    exact Nat.zero_le _
  rw [root_of_element hskip hmore, withScope_of_full hnone, reader_skipProlog]

/-- **With room for a scope**, the work of a parse is that on the root element, in the scope of the
document, which is left again. -/
theorem root_of_room {result : Except Fault Unit}
    (hskip : session.reader.cursor.skipProlog.2.result = .ok ())
    (hmore : session.reader.cursor.skipProlog.1.isEof = false)
    (hscopes : session.reader.scopes = []) (hroom : session.reader.options.maxDepth ≠ 0)
    (hwork : visitRoot act visitor (session.skipProlog.1.enterScope none).1 =
      some (visited, result)) :
    session.root act visitor = some (visited.leaveScope, result) := by
  have hdepth : session.skipProlog.1.reader.depth < session.skipProlog.1.reader.options.maxDepth := by
    rw [reader_skipProlog, Reader.depth, hscopes]
    exact Nat.pos_of_ne_zero hroom
  rw [root_of_element hskip hmore, withScope_of_room hdepth hwork]

end Steps

end Session

end TagWalk
