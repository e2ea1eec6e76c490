import TagWalk.Proofs.Exactness
import TagWalk.Proofs.Faithful

/-! # Walks that are broken off

A visitor's fault ends the walk: every enumeration and every visitor around it passes the fault on, the
scopes are left, and nothing else happens. So a policy that fails at some visit is the policy up to that
visit. The two are run side by side, and keep step until one of them fails.

* **`Policy.failingAt`** — a policy that fails at its visit number `n`.
* **`Moment.Unwinds`** — what may happen on the way out.
* **`Session.BreaksOff`** — a session that was broken off, beside one that went on.
* **`Aborts`** — what work comes to with the policy that fails, beside what it comes to without it.
* **`parse_failingAt`** — a walk that fails at a visit is the walk up to that visit, and then ends with
  the fault. -/

namespace TagWalk

/-- **A policy that fails at its visit number `n`**, counted from `0`, before it does anything:
where `seen.length = n` the node is answered with `.error fault`, and everywhere else by
`policy.cast`. -/
def Policy.failingAt (policy : Policy) (n : Nat) (fault : Fault) : Cast Unit (List Node) Empty :=
  fun visitor node => .get fun seen =>
    if seen.length = n then .done (.error fault) else policy.cast visitor node

/-- **What happens while a fault is passed on**: `.visited`, `.descended` and `.parsed` events with
the result `.error fault`, and records of scopes that are left. All of them show the same
`cursor`. -/
def Moment.Unwinds (fault : Fault) (cursor : Cursor) (moment : Moment Unit Empty) : Prop :=
  moment.reader.cursor = cursor ∧
    match moment.event with
    | .visited _ result => result = .error fault
    | .descended _ result | .parsed result => result = .error fault
    | .log (.leaveScope _ _) => True
    | _ => False

/-- Nothing is visited on the way out: no event that `Unwinds` is a `.visit`. -/
theorem Moment.Unwinds.sight?_eq {fault : Fault} {cursor : Cursor} {moment : Moment Unit Empty}
    (h : moment.Unwinds fault cursor) : moment.sight? = none := by
  obtain ⟨level, reader, event⟩ := moment
  cases event with
  | visit => exact h.2.elim
  | _ => rfl

namespace Session

/-! ## Sessions before a visit -/

/-- **A session with at most `n` visits behind it**, all of which the policy's state tells. So visit
number `n` is still to come. -/
structure IsBefore (n : Nat) (session : Walking) : Prop where
  /-- The state tells the visits. -/
  sights_length : session.account.sights.length = session.account.seen.length
  /-- There are at most `n`. -/
  length_le : session.account.seen.length ≤ n

/-- A session is before a visit when its account is that of one that is: `IsBefore n` looks at
nothing else. -/
theorem IsBefore.of_account {n : Nat} {session after : Walking} (h : session.IsBefore n)
    (haccount : after.account = session.account) : after.IsBefore n :=
  ⟨haccount ▸ h.sights_length, haccount ▸ h.length_le⟩

/-- A body may be read before a visit, whether or not that works: only `bodies` grows. -/
theorem IsBefore.readBody {n : Nat} {session : Walking} (h : session.IsBefore n) (node : Node) :
    (session.readBody node).1.IsBefore n := by
  cases hread : (session.reader.readBody node).2.result with
  | error fault => exact h.of_account (account_readBody_of_error hread)
  | ok body =>
    have haccount := account_readBody_of_ok hread
    refine ⟨?_, ?_⟩
    · rw [haccount]
      exact h.sights_length
    · rw [haccount]
      exact h.length_le

/-- What follows a visit leaves the account: a body that is skipped is not one that is read. -/
theorem account_afterVisit (session : Walking) (child : Node) (signal : Signal) :
    (session.afterVisit child signal).1.account = session.account := by
  rcases session.afterVisit_cases child signal with
    ⟨-, heq⟩ | ⟨-, -, heq⟩ | ⟨-, -, ⟨_, -, heq⟩ | ⟨_, -, heq⟩⟩
  · rw [heq]
  · rw [heq]
  · rw [heq, account_skip]
  · rw [heq, account_skip]

/-- And it only adds to what the session shows: `session.ownMoments` stays in front. -/
theorem ownMoments_isPrefix_afterVisit (session : Walking) (child : Node) (signal : Signal) :
    session.ownMoments <+: (session.afterVisit child signal).1.ownMoments := by
  have hskip : session.ownMoments <+: (session.skip child).1.ownMoments :=
    (session.skipping child).ownMoments_isPrefix
  rcases session.afterVisit_cases child signal with
    ⟨-, heq⟩ | ⟨-, -, heq⟩ | ⟨-, -, ⟨_, -, heq⟩ | ⟨_, -, heq⟩⟩
  · simp [heq]
  · simp [heq]
  · rw [heq]
    exact hskip
  · rw [heq]
    exact hskip

/-! ## Sessions that were broken off -/

/-- **A session that was broken off at visit number `n`**, beside one that went on: `failed` shows
`front ++ visit :: unwinding`, where `front ++ [visit]` is what `ended` shows first and everything
in `unwinding` is how the fault was passed on. -/
structure BreaksOff (n : Nat) (fault : Fault) (ended failed : Walking)
    (front : List (Moment Unit Empty)) (visit : Moment Unit Empty)
    (unwinding : List (Moment Unit Empty)) : Prop where
  /-- What the session shows. -/
  moments_eq : failed.ownMoments = front ++ visit :: unwinding
  /-- Up to the visit, the other one shows the same. -/
  isPrefix : front ++ [visit] <+: ended.ownMoments
  /-- There are `n` visits before. -/
  front_sights : (front.filterMap Moment.sight?).length = n
  /-- It is a visit at which the session was broken off. -/
  isSome_sight? : visit.sight?.isSome = true
  /-- Behind it, the fault is passed on. -/
  unwinds : ∀ moment ∈ unwinding, moment.Unwinds fault visit.reader.cursor
  /-- The cursor stays where it was at the visit. -/
  cursor_eq : failed.reader.cursor = visit.reader.cursor

namespace BreaksOff

variable {n : Nat} {fault : Fault} {ended after failed : Walking}
  {front unwinding : List (Moment Unit Empty)} {visit : Moment Unit Empty}

/-- The other session may go on: only `front ++ [visit] <+: ended.ownMoments` is asked of it. -/
theorem later (h : BreaksOff n fault ended failed front visit unwinding)
    (hlater : ended.ownMoments <+: after.ownMoments) :
    BreaksOff n fault after failed front visit unwinding :=
  { h with isPrefix := h.isPrefix.trans hlater }

/-- The fault may be passed on further, by one event more at the end of `unwinding`. -/
theorem record (h : BreaksOff n fault ended failed front visit unwinding) {event : Event Unit Empty}
    (hunwinds : Moment.Unwinds fault failed.reader.cursor ⟨failed.level, failed.reader, event⟩) :
    BreaksOff n fault ended (failed.record event) front visit
      (unwinding ++ [⟨failed.level, failed.reader, event⟩]) := by
  refine { h with moments_eq := ?_, unwinds := ?_ }
  · rw [ownMoments_record, h.moments_eq, List.append_assoc, List.cons_append]
  · refine List.forall_mem_append.mpr ⟨h.unwinds, List.forall_mem_singleton.mpr ?_⟩
    exact h.cursor_eq ▸ hunwinds

/-- Both sessions may tell how the work ended: `told` without the fault and `event` with it. -/
theorem record_both (h : BreaksOff n fault ended failed front visit unwinding)
    {told event : Event Unit Empty}
    (hunwinds : Moment.Unwinds fault failed.reader.cursor ⟨failed.level, failed.reader, event⟩) :
    BreaksOff n fault (ended.record told) (failed.record event) front visit
      (unwinding ++ [⟨failed.level, failed.reader, event⟩]) := by
  refine (h.record hunwinds).later ?_
  rw [ownMoments_record]
  exact List.prefix_append _ _

/-- And scopes may be left, which adds the record of a scope to `unwinding`. -/
theorem leaveScope (h : BreaksOff n fault ended failed front visit unwinding) :
    BreaksOff n fault ended failed.leaveScope front visit
      (unwinding ++ [⟨failed.level, failed.reader.leaveScope.1, .log failed.reader.leaveScope.2⟩]) := by
  have hcursor := failed.reader.cursor_leaveScope
  have hmoved : BreaksOff n fault ended { failed with reader := failed.reader.leaveScope.1 } front visit
      unwinding := { h with moments_eq := h.moments_eq, cursor_eq := hcursor.trans h.cursor_eq }
  have hunwinds : Moment.Unwinds fault failed.reader.leaveScope.1.cursor
      ⟨failed.level, failed.reader.leaveScope.1, .log failed.reader.leaveScope.2⟩ := by
    obtain ⟨element, depth, hrecord⟩ := failed.reader.exists_leaveScope
    rw [hrecord]
    exact ⟨rfl, trivial⟩
  exact hmoved.record hunwinds

/-- **A session that was broken off shows the first visits** of the other one, up to the one at
which it was: `failed.sights = ended.sights.take (n + 1)`, and the last of them is `visit`. -/
theorem sights_eq (h : BreaksOff n fault ended failed front visit unwinding) :
    failed.sights = ended.sights.take (n + 1) ∧ n < ended.sights.length ∧
      failed.sights.getLast? = visit.sight? := by
  obtain ⟨sight, hsight⟩ := Option.isSome_iff_exists.mp h.isSome_sight?
  -- nothing is shown while the walk unwinds, so the failed visit is the last one shown
  have hnone : unwinding.filterMap Moment.sight? = [] :=
    List.filterMap_eq_nil_iff.mpr fun moment hm => (h.unwinds moment hm).sight?_eq
  have hfailed : failed.sights = front.filterMap Moment.sight? ++ [sight] := by
    rw [sights, h.moments_eq, List.filterMap_append, List.filterMap_cons_some hsight, hnone]
  have hprefix : front.filterMap Moment.sight? ++ [sight] <+: ended.sights := by
    have hall := h.isPrefix.filterMap Moment.sight?
    rwa [List.filterMap_append, List.filterMap_cons_some hsight] at hall
  have hlength : (front.filterMap Moment.sight? ++ [sight]).length = n + 1 := by
    rw [List.length_append, h.front_sights]
    rfl
  refine ⟨?_, ?_, ?_⟩
  · rw [hfailed, ← hlength]
    exact List.prefix_iff_eq_take.mp hprefix
  · have hle := hprefix.length_le
    omega
  · rw [hfailed, hsight, List.getLast?_concat]

end BreaksOff

end Session

/-! ## Two policies side by side -/

open Session

section Aborts

variable {α : Type} {n : Nat} {fault : Fault}

/-- **What work comes to with the policy that fails**, beside the session `ended` and the `value`
that it comes to without it: `some (ended, value)` again, if visit number `n` is still to come, and
otherwise a session that `BreaksOff` and the `failure`. -/
inductive Aborts (n : Nat) (fault : Fault) (failure : α) (ended : Walking) (value : α) :
    Outcome Unit (List Node) Empty α → Prop
  /-- The visit is still to come. -/
  | along (before : ended.IsBefore n) : Aborts n fault failure ended value (some (ended, value))
  /-- The work was broken off at the visit. -/
  | aborted {failed : Walking} {front unwinding : List (Moment Unit Empty)} {visit : Moment Unit Empty}
      (broken : BreaksOff n fault ended failed front visit unwinding) :
      Aborts n fault failure ended value (some (failed, failure))

/-- Either way, the work with the policy that fails comes to an end: its outcome is not `none`. -/
theorem Aborts.eq_some {failure value : α} {ended : Walking}
    {outcome : Outcome Unit (List Node) Empty α} (h : Aborts n fault failure ended value outcome) :
    (outcome = some (ended, value) ∧ ended.IsBefore n) ∨
      ∃ failed front visit unwinding, outcome = some (failed, failure) ∧
        BreaksOff n fault ended failed front visit unwinding := by
  cases h with
  | along before => exact .inl ⟨rfl, before⟩
  | aborted broken => exact .inr ⟨_, _, _, _, rfl, broken⟩

/-- **A session in which a node is handed over**: its moments are `front ++ [visit]`, and the state
tells the visits in `front`. -/
structure Session.IsAt (session : Walking) (front : List (Moment Unit Empty))
    (visit : Moment Unit Empty) : Prop where
  /-- The visit is the last moment. -/
  moments_eq : session.ownMoments = front ++ [visit]
  /-- The reader is where the visit shows it. -/
  reader_eq : visit.reader = session.reader
  /-- It is a visit. -/
  isSome_sight? : visit.sight?.isSome = true
  /-- The state tells the visits before. -/
  front_sights : (front.filterMap Moment.sight?).length = session.state.length

/-- A node that is opened and handed over brings a session from before a visit to the visit
itself. -/
theorem Session.IsBefore.exists_isAt {session : Walking} (h : session.IsBefore n) (visitor : Unit)
    (node : Node) (tag : Tag) (soughtFrom : Nat) :
    ∃ front visit,
      ((session.openNode tag).1.record (.visit visitor node tag soughtFrom)).IsAt front visit := by
  have hsights : (session.openNode tag).1.sights = session.sights := sights_step _ _
  refine ⟨_, _, ownMoments_record _ _, rfl, rfl, ?_⟩
  show (session.openNode tag).1.sights.length = (session.openNode tag).1.state.length
  rw [hsights, state_openNode]
  exact h.sights_length

/-- **Visitors that fail at visit number `n`**, beside visitors that do not: in a session that
`IsAt` a visit with at most that number, what comes of `failing` `Aborts` what comes of `act`. -/
def Act.AbortsAt (n : Nat) (fault : Fault) (act failing : Act Unit (List Node) Empty) : Prop :=
  ∀ visitor node (session worked : Walking) front visit answer, session.IsAt front visit →
    session.state.length ≤ n → act visitor node session = some (worked, answer) →
      Aborts n fault (.error fault) worked answer (failing visitor node session)

end Aborts

namespace Act.AbortsAt

variable {n fuel : Nat} {fault : Fault} {act failing : Act Unit (List Node) Empty}
  {session ended : Walking} {visitor : Unit} {parent : Node} {result : Except Fault Unit}

/-- **Work in a scope**, when the work inside is broken off: then the scope is left with
`.error fault`. -/
theorem withScope {element : Option Node} {work other : Walking → Outcome Unit (List Node) Empty
      (Except Fault Unit)} (hbefore : session.IsBefore n)
    (hwork : ∀ worked, (session.enterScope element).1.IsBefore n →
      work (session.enterScope element).1 = some (worked, result) →
        Aborts n fault (.error fault) worked result (other (session.enterScope element).1))
    (hrun : session.withScope element work = some (ended, result)) :
    Aborts n fault (.error fault) ended result (session.withScope element other) := by
  rcases withScope_eq_some hrun with ⟨hfull, rfl, rfl⟩ | ⟨hroom, worked, hdone, rfl⟩
  · rw [withScope_of_full hfull]
    exact .along (hbefore.of_account (account_log _ _))
  · have hentered := hbefore.of_account (account_enterScope session element)
    rcases (hwork worked hentered hdone).eq_some with
      ⟨hother, before⟩ | ⟨failed, front, visit, unwinding, hother, broken⟩
    · rw [withScope_of_room hroom hother]
      exact .along (before.of_account (account_leaveScope _))
    · rw [withScope_of_room hroom hother]
      have hleft : worked.leaveScope.ownMoments = worked.ownMoments ++ Moment.logs worked.level
          worked.reader.leaveScope.1 [worked.reader.leaveScope.2] :=
        ownMoments_log { worked with reader := worked.reader.leaveScope.1 } _
      exact .aborted (broken.leaveScope.later (hleft ▸ List.prefix_append _ _))

variable (h : AbortsAt n fault act failing)

include h

/-- **A node that is opened and visited.** Opening it fails with both policies alike, and the visit
is what `Act.AbortsAt` speaks of. -/
theorem visitTag {tag : Tag} {answer : Except Fault (Node × Signal)} (hbefore : session.IsBefore n)
    (hrun : session.visitTag act visitor tag = some (ended, answer)) :
    Aborts n fault (.error fault) ended answer (session.visitTag failing visitor tag) := by
  rcases visitTag_eq_some hrun with ⟨other, hopen, rfl, rfl⟩ | ⟨node, signal, hopen, hvisit, rfl⟩
  · rw [visitTag_of_error hopen]
    exact .along (hbefore.of_account (account_step _ _))
  · obtain ⟨worked, hwork, rfl⟩ := visit_eq_some.mp hvisit
    obtain ⟨front, visit, hat⟩ := hbefore.exists_isAt visitor node tag session.reader.position
    have hle : (session.openNode tag).1.state.length ≤ n := by
      rw [state_openNode]
      exact hbefore.length_le
    rcases (h visitor node _ worked front visit signal hat hle hwork).eq_some with
      ⟨hfailing, before⟩ | ⟨failed, front, visit, unwinding, hfailing, broken⟩
    · rw [visitTag_of_ok hopen hfailing]
      exact .along (before.of_account (account_record rfl rfl))
    · rw [visitTag_of_ok hopen hfailing]
      exact .aborted (broken.record_both ⟨rfl, rfl⟩)

/-- **One tag among the children.** A child whose visit was broken off is the last one, as
`.finished (.error fault)` says. -/
theorem childStep {progress : Progress} (hbefore : session.IsBefore n)
    (hrun : session.childStep act parent visitor = some (ended, progress)) :
    Aborts n fault (.finished (.error fault)) ended progress
      (session.childStep failing parent visitor) := by
  rcases childStep_eq_some hrun with ⟨other, hnext, rfl, rfl⟩ | ⟨tag, hnext, hcase⟩
  · rw [childStep_of_error hnext]
    exact .along hbefore
  rcases hcase with ⟨hkind, rfl, rfl⟩ | ⟨hkind, rfl, rfl⟩ | ⟨hkind, ⟨other, hvisit, rfl⟩ |
    ⟨visited, child, signal, hvisit, hafter⟩⟩
  · rw [childStep_of_closing hnext hkind]
    exact .along (hbefore.of_account (account_close _ _ _))
  · rw [childStep_of_markup hnext hkind]
    exact .along (hbefore.of_account (account_skipMarkup _ _))
  · rcases (h.visitTag hbefore hvisit).eq_some with
      ⟨hfailing, before⟩ | ⟨failed, front, visit, unwinding, hfailing, broken⟩
    · rw [childStep_of_failed hnext hkind hfailing]
      exact .along before
    · rw [childStep_of_failed hnext hkind hfailing]
      exact .aborted broken
  · -- the visit was answered: what follows it shows no node, so the count stays
    have haccount := visited.account_afterVisit child signal
    have hlater := visited.ownMoments_isPrefix_afterVisit child signal
    rw [hafter] at haccount hlater
    rcases (h.visitTag hbefore hvisit).eq_some with
      ⟨hfailing, before⟩ | ⟨failed, front, visit, unwinding, hfailing, broken⟩
    · rw [childStep_of_visited hnext hkind hfailing, hafter]
      exact .along (before.of_account haccount)
    · rw [childStep_of_failed hnext hkind hfailing]
      exact .aborted (broken.later hlater)

/-- **The children of a node**, by induction on how many tags are looked at: a step that is broken
off is the last one, and any other leaves the session before the visit. -/
theorem scanChildren (hfollows : act.Follows fun _ _ _ => True) (hbefore : session.IsBefore n)
    (hrun : scanChildren act parent visitor fuel session = some (ended, result)) :
    Aborts n fault (.error fault) ended result (scanChildren failing parent visitor fuel session) := by
  induction fuel generalizing session with
  | zero => cases hrun
  | succ fuel ih =>
    rcases scanChildren_eq_some hrun with hstep | ⟨stepped, hstep, hrest⟩
    · rcases (h.childStep hbefore hstep).eq_some with
        ⟨hfailing, before⟩ | ⟨failed, front, visit, unwinding, hfailing, broken⟩
      · rw [scanChildren_of_finished hfailing]
        exact .along before
      · rw [scanChildren_of_finished hfailing]
        exact .aborted broken
    · rcases (h.childStep hbefore hstep).eq_some with
        ⟨hfailing, before⟩ | ⟨failed, front, visit, unwinding, hfailing, broken⟩
      · rw [scanChildren_of_more hfailing]
        exact ih before hrest
      · -- the fault ends one enumeration, and the other one goes on
        rw [scanChildren_of_finished hfailing]
        exact .aborted (broken.later (hfollows.enumerating hrest).ownMoments_isPrefix)

/-- **A descent** ends with the fault when the walk among the children is broken off. -/
theorem descend (hfollows : act.Follows fun _ _ _ => True) (hbefore : session.IsBefore n)
    (hrun : session.descend act fuel parent visitor = some (ended, result)) :
    Aborts n fault (.error fault) ended result (session.descend failing fuel parent visitor) := by
  obtain ⟨worked, hchildren, rfl⟩ := descend_eq_some hrun
  have hbegun : (session.record (.descend parent visitor)).IsBefore n :=
    hbefore.of_account (account_record rfl rfl)
  -- a childless node is no place to fail, and otherwise the enumeration decides
  have hworked : Aborts n fault (.error fault) worked result
      ((session.record (.descend parent visitor)).children failing fuel parent visitor) := by
    cases hclosed : parent.selfClosing with
    | true =>
      rw [children_of_selfClosing hclosed] at hchildren ⊢
      cases hchildren
      exact .along (hbegun.of_account rfl)
    | false =>
      rw [children_of_open hclosed] at hchildren ⊢
      exact withScope hbegun (fun _ hentered hwork => h.scanChildren hfollows hentered hwork) hchildren
  rcases hworked.eq_some with
    ⟨hfailing, before⟩ | ⟨failed, front, visit, unwinding, hfailing, broken⟩
  · rw [descend_of_children hfailing]
    exact .along (before.of_account (account_record rfl rfl))
  · rw [descend_of_children hfailing]
    exact .aborted (broken.record_both ⟨rfl, rfl⟩)

/-- The visit of a root element ends with the fault when it is broken off. -/
theorem visitRoot (hbefore : session.IsBefore n)
    (hrun : session.visitRoot act visitor = some (ended, result)) :
    Aborts n fault (.error fault) ended result (session.visitRoot failing visitor) := by
  rcases visitRoot_eq_some hrun with ⟨other, hnext, rfl, rfl⟩ | ⟨tag, hnext, hcase⟩
  · rw [visitRoot_of_error hnext]
    exact .along hbefore
  rcases hcase with ⟨hkind, rfl, rfl⟩ | ⟨hkind, answer, hvisit, rfl⟩
  · rw [visitRoot_of_closing hnext hkind]
    exact .along hbefore
  · rcases (h.visitTag hbefore hvisit).eq_some with
      ⟨hfailing, before⟩ | ⟨failed, front, visit, unwinding, hfailing, broken⟩
    · rw [visitRoot_of_visitTag hnext hkind hfailing]
      exact .along before
    · rw [visitRoot_of_visitTag hnext hkind hfailing]
      exact .aborted broken

/-- **The work of a parse**: the prolog is skipped without a visit, and then the root element is
visited in the document's scope. -/
theorem root (hbefore : session.IsBefore n) (hrun : session.root act visitor = some (ended, result)) :
    Aborts n fault (.error fault) ended result (session.root failing visitor) := by
  have hskipped : session.skipProlog.1.IsBefore n := hbefore.of_account (account_step _ _)
  rcases root_eq_some hrun with ⟨other, hskip, rfl, rfl⟩ | ⟨hskip, ⟨heof, rfl, rfl⟩ | ⟨hmore, hscope⟩⟩
  · rw [root_of_broken hskip]
    exact .along hskipped
  · rw [reader_skipProlog] at heof
    rw [root_of_empty hskip heof]
    exact .along (hskipped.of_account (account_log _ _))
  · rw [reader_skipProlog] at hmore
    rw [root_of_element hskip hmore]
    exact withScope hskipped (fun _ hentered hwork => h.visitRoot hentered hwork) hscope

/-- **A parse** ends with the fault when the work on its root element is broken off. -/
theorem parse (hbefore : session.IsBefore n) (hrun : session.parse act visitor = some (ended, result)) :
    Aborts n fault (.error fault) ended result (session.parse failing visitor) := by
  obtain ⟨worked, hroot, rfl⟩ := parse_eq_some hrun
  have hdropped : IsBefore n { session with reader := session.reader.dropScopes } :=
    hbefore.of_account rfl
  have hbegun : (session.beginParse visitor).IsBefore n := hdropped.of_account (account_record rfl rfl)
  rcases (h.root hbegun hroot).eq_some with
    ⟨hfailing, before⟩ | ⟨failed, front, visit, unwinding, hfailing, broken⟩
  · rw [parse_of_root hfailing]
    exact .along (before.of_account (account_record rfl rfl))
  · rw [parse_of_root hfailing]
    exact .aborted (broken.record_both ⟨rfl, rfl⟩)

/-- **What a policy does with a node**, when the walk among its children is broken off: the answer
is the fault, as `Policy.cast` passes on every fault. -/
theorem run_cast (hfollows : act.Follows fun _ _ _ => True) (policy : Policy) {node : Node}
    {answer : Except Fault Signal}
    (hmet : IsBefore n { session with state := node :: session.state })
    (hrun : (policy.cast visitor node).run act fuel session = some (ended, answer)) :
    Aborts n fault (.error fault) ended answer
      ((policy.cast visitor node).run failing fuel session) := by
  cases huse : (policy (node :: session.state)).use with
  | ignore =>
    simp only [Policy.cast, Script.run, huse] at hrun ⊢
    cases hrun
    exact .along hmet
  -- only a descent calls visitors, so only there can the walk be broken off
  | readBody =>
    simp only [Policy.cast, Script.run, huse] at hrun ⊢
    cases hrun
    exact .along (hmet.readBody node)
  | descend =>
    simp only [Policy.cast, Script.run, huse] at hrun ⊢
    cases hdescend : Session.descend act fuel node () { session with state := node :: session.state } with
    | none =>
      rw [hdescend] at hrun
      cases hrun
    | some reached =>
      rw [hdescend] at hrun
      cases hrun
      rcases (h.descend hfollows hmet hdescend).eq_some with
        ⟨hfailing, before⟩ | ⟨failed, front, visit, unwinding, hfailing, broken⟩
      · rw [hfailing]
        exact .along before
      · rw [hfailing]
        exact .aborted broken

end Act.AbortsAt

/-- **A policy that fails at a visit aborts there**, by induction on the fuel: at visit number `n`
it fails by itself, and before it the visits inside of a node have less fuel. -/
theorem Act.abortsAt_perform (policy : Policy) (n : Nat) (fault : Fault) (fuel : Nat) :
    Act.AbortsAt n fault (perform policy.cast fuel) (perform (policy.failingAt n fault) fuel) := by
  induction fuel with
  | zero =>
    intro visitor node session worked front visit answer _ _ hrun
    cases hrun
  | succ fuel ih =>
    intro visitor node session worked front visit answer hat hle hrun
    have hfailing : perform (policy.failingAt n fault) (fuel + 1) visitor node session =
        (if session.state.length = n then .done (.error fault) else policy.cast visitor node).run
          (perform (policy.failingAt n fault) fuel) fuel session := rfl
    have hfollows : ∀ fuel, (perform policy.cast fuel).Follows fun _ _ _ => True :=
      Course.closed_true.composed.follows_perform policy.cast
    rw [hfailing]
    by_cases hn : session.state.length = n
    · rw [if_pos hn]
      have hlater := (hfollows (fuel + 1) visitor node session worked answer hrun).ownMoments_isPrefix
      exact .aborted ⟨hat.moments_eq, hat.moments_eq ▸ hlater, hat.front_sights.trans hn,
        hat.isSome_sight?, by simp, congrArg Reader.cursor hat.reader_eq.symm⟩
    · rw [if_neg hn]
      refine ih.run_cast (hfollows fuel) policy ⟨?_, ?_⟩ hrun
      · -- with the node at hand, the state tells this visit as well
        obtain ⟨sight, hsight⟩ := Option.isSome_iff_exists.mp hat.isSome_sight?
        show session.sights.length = (node :: session.state).length
        rw [Session.sights, hat.moments_eq, List.filterMap_append, List.length_append,
          hat.front_sights, List.filterMap_cons_some hsight]
        rfl
      · show session.state.length + 1 ≤ n
        omega

/-- A visit that is faithful shows the reader where the node's body starts, at
`sight.node.bodyStart`. -/
theorem Moment.ShowsFaithful.position_eq {moment : Moment Unit Empty} (h : moment.ShowsFaithful)
    {sight : Sight} (hsight : moment.sight? = some sight) :
    moment.reader.position = sight.node.bodyStart := by
  unfold sight? at hsight
  split at hsight
  · rename_i visitor node tag soughtFrom hevent
    cases hsight
    exact (h visitor node tag soughtFrom hevent).1
  · cases hsight

/-- **A session that was broken off** is left where the body of the node starts that was visited
last, `last.node.bodyStart`, since no step of `unwinding` moves the cursor. -/
theorem Session.BreaksOff.exists_last {n : Nat} {fault : Fault} {ended failed : Walking}
    {front unwinding : List (Moment Unit Empty)} {visit : Moment Unit Empty}
    (h : BreaksOff n fault ended failed front visit unwinding)
    (hshows : ∀ moment ∈ failed.ownMoments, moment.ShowsFaithful) :
    ∃ last, failed.sights.getLast? = some last ∧ failed.reader.position = last.node.bodyStart := by
  obtain ⟨sight, hsight⟩ := Option.isSome_iff_exists.mp h.isSome_sight?
  have hvisit : visit ∈ failed.ownMoments := by
    rw [h.moments_eq]
    exact List.mem_append_right _ List.mem_cons_self
  have hposition := (hshows visit hvisit).position_eq hsight
  rw [Reader.position, ← h.cursor_eq] at hposition
  exact ⟨sight, h.sights_eq.2.2.trans hsight, hposition⟩

/-- **A visitor's fault ends the walk at once**, and is what the walk comes to. Let `policy` make
`ended.sights` on its own, and fail at its visit number `n` here. If `n < ended.sights.length`, the
visits are `ended.sights.take (n + 1)` and the outcome is `.error fault`; behind the last visit the
fault is only passed on (`Session.BreaksOff`), the cursor stays where the body of that node starts,
and no scope is left open. If there is no such visit, `failed = ended` and `outcome = result`. -/
theorem parse_failingAt (policy : Policy) (n : Nat) (fault : Fault) (reader : Reader) {fuel : Nat}
    (hfuel : reader.cursor.remainingLength < fuel) :
    ∃ ended result failed outcome,
      policy.parse fuel reader = some (ended, result) ∧
      (Session.start reader []).parse (perform (policy.failingAt n fault) fuel) () =
        some (failed, outcome) ∧
      (n < ended.sights.length →
        failed.sights = ended.sights.take (n + 1) ∧ outcome = .error fault ∧
          (∃ last, failed.sights.getLast? = some last ∧
            failed.reader.position = last.node.bodyStart) ∧
          failed.reader.scopes = [] ∧
          ∃ front visit unwinding, Session.BreaksOff n fault ended failed front visit unwinding) ∧
      (ended.sights.length ≤ n → failed = ended ∧ outcome = result) := by
  let start : Walking := .start reader []
  have hstart : start.IsBefore n := ⟨rfl, Nat.zero_le n⟩
  have hbelow : start.remainingLength ≤ fuel - 1 := Nat.le_sub_one_of_lt hfuel
  obtain ⟨ended, result, hrun, -⟩ :=
    Session.ends_parse (returnsBelow_perform policy.isForward_cast fuel) hbelow ()
  rcases ((Act.abortsAt_perform policy n fault fuel).parse hstart hrun).eq_some with
    ⟨hfailing, before⟩ | ⟨failed, front, visit, unwinding, hfailing, broken⟩
  · -- the run is over before the visit at which the policy fails
    have hle : ended.sights.length ≤ n := before.sights_length ▸ before.length_le
    refine ⟨ended, result, ended, result, hrun, hfailing, ?_, ?_⟩
    · intro hlt
      omega
    · intro _
      exact ⟨rfl, rfl⟩
  · obtain ⟨hsights, hlt, -⟩ := broken.sights_eq
    have hshows := Moment.closed_showsFaithful.composed.follows_parse
      (Moment.closed_showsFaithful.composed.follows_perform _ fuel) hfailing
    have hlast := broken.exists_last hshows.since
    have hscopes := Session.scopes_of_parse (KeepsScopes.closed.composed.follows_perform _ fuel) hfailing
    refine ⟨ended, result, failed, .error fault, hrun, hfailing, ?_, ?_⟩
    · intro _
      exact ⟨hsights, rfl, hlast, hscopes, front, visit, unwinding, broken⟩
    · intro hle
      omega

/-- The reader at the front of `<a><b>x</b></a>`. -/
def readerAtBody : Reader :=
  .ofDocument [0x3C, 0x61, 0x3E, 0x3C, 0x62, 0x3E, 0x78, 0x3C, 0x2F, 0x62, 0x3E, 0x3C, 0x2F, 0x61, 0x3E]
    .lenient

/-- The policy that descends into everything, and fails at `b`, leaves the reader where the body of `b`
starts. -/
theorem parse_failingAt_readerAtBody :
    readerAtBody.cursor.remainingLength < 16 ∧
      ∃ failed, (Session.start readerAtBody []).parse
          (perform (Policy.everything.failingAt 1 (.missingTagStart 99)) 16) () =
            some (failed, .error (.missingTagStart 99)) ∧
        failed.sights.length = 2 ∧ failed.reader.position = 6 ∧ failed.reader.scopes = [] := by
  have hfuel : readerAtBody.cursor.remainingLength < 16 := by decide
  obtain ⟨ended, result, failed, outcome, hrun, hfailing, hbroken, -⟩ :=
    parse_failingAt .everything 1 (.missingTagStart 99) readerAtBody hfuel
  have hwalk : ∃ walked done, Policy.everything.parse 16 readerAtBody = some (walked, done) ∧
      walked.sights = [⟨⟨⟨[0x61], .empty, false⟩, 3⟩, 1, 3⟩, ⟨⟨⟨[0x62], .empty, false⟩, 6⟩, 2, 6⟩] :=
    ⟨_, _, by with_unfolding_all rfl, by with_unfolding_all rfl⟩
  obtain ⟨walked, done, hdone, hsights⟩ := hwalk
  obtain ⟨rfl, rfl⟩ := Prod.mk.inj (Option.some.inj (hrun.symm.trans hdone))
  obtain ⟨hfirst, rfl, ⟨last, hlast, hposition⟩, hscopes, -⟩ := hbroken (by rw [hsights]; decide)
  rw [hfirst, hsights] at hlast
  cases hlast
  refine ⟨hfuel, failed, hfailing, ?_, hposition, hscopes⟩
  rw [hfirst, hsights]
  rfl

end TagWalk
