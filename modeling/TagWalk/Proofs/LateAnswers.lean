import TagWalk.Policy
import TagWalk.Proofs.Progress

/-! # Answers that come late

A policy fixes its answer when a visit begins: `(policy (node :: seen)).signal` is asked for with the
node at hand as the latest one. A visitor can wait with its answer until its work on the node is done,
and by then it has seen the node's descendants too. On one reader that makes no difference: what is
known in the end could have been foretold, so each completed parse of a **late policy** is a parse of
some policy, step for step.

* **`LatePolicy`** — what is done with a node is chosen from the nodes seen, and the answer from those
  seen when the work is done.
* **`Foretold`** — a run that depends on the answers to its own visits only.
* **`LatePolicy.exists_policy`** — `late.parse fuel reader = some (ended, result)` is
  `policy.parse fuel reader = some (ended, result)` for some `policy`.
* **`LatePolicy.exists_parse_eq`** — and with fuel enough, a late policy's parse ends. -/

namespace TagWalk

/-- **A policy that answers late.** -/
structure LatePolicy where
  /-- What is done with a node: `use seen` for the node at hand, which is the latest of `seen`. -/
  use : List Node → Use
  /-- What is answered, if nothing fails: `signal seen now` when `seen` were the nodes seen as the
  visit began and `now` are those seen by its end. -/
  signal : List Node → List Node → Signal

namespace LatePolicy

/-- The end of a visit: a fault is passed on, and otherwise the nodes seen by now decide. -/
def answer {α : Type} (late : LatePolicy) (seen : List Node) (result : Except Fault α) :
    Script Unit (List Node) Empty (Except Fault Signal) :=
  .get fun now => .done (result.map fun _ => late.signal seen now)

/-- **A late policy as a visitor.** It does what `Policy.cast` does, with the answer put last. -/
def cast (late : LatePolicy) : Cast Unit (List Node) Empty := fun _ node =>
  .get fun seen =>
    .set (node :: seen) <|
      match late.use (node :: seen) with
      | .ignore => late.answer (node :: seen) (.ok ())
      | .readBody => .readBody node (late.answer (node :: seen))
      | .descend => .descend node () (late.answer (node :: seen))

/-- A walk through a document by a late policy, as `Policy.parse` is one by a policy. -/
def parse (late : LatePolicy) (fuel : Nat) (reader : Reader) :
    Outcome Unit (List Node) Empty (Except Fault Unit) :=
  (Session.start reader []).parse (perform late.cast fuel) ()

/-- **The policy with the answers of a table**: it does with a node what `late` does, and its answer
to the `n`-th visit is `table n`, counted from `1`. -/
def foretell (late : LatePolicy) (table : Nat → Signal) : Policy := fun seen =>
  ⟨late.use seen, table seen.length⟩

end LatePolicy

/-! ## Runs that can be foretold -/

/-- **A run that can be foretold.** `run table` is what comes of a table of answers. The run begins
with `seen` nodes seen and comes to `value` in the session `ended`, and so it does with every table
that has the right answers to the visits in between, those of the numbers `n` with
`seen < n ∧ n ≤ ended.state.length`. -/
structure Foretold {α : Type} (seen : Nat) (run : (Nat → Signal) → Outcome Unit (List Node) Empty α)
    (ended : Session Unit (List Node) Empty) (value : α) : Prop where
  /-- No node is forgotten. -/
  seen_le : seen ≤ ended.state.length
  /-- The answers to the visits of the run decide about it. -/
  exists_answers : ∃ answers : Nat → Signal, ∀ table : Nat → Signal,
    (∀ n, seen < n → n ≤ ended.state.length → table n = answers n) → run table = some (ended, value)

namespace Foretold

variable {α β : Type} {seen : Nat} {run : (Nat → Signal) → Outcome Unit (List Node) Empty α}
  {whole : (Nat → Signal) → Outcome Unit (List Node) Empty β}
  {mid ended : Session Unit (List Node) Empty} {value : α} {result : β}

/-- A run without a visit needs no answer. -/
theorem of_forall (hseen : ended.state.length = seen) (hrun : ∀ table, run table = some (ended, value)) :
    Foretold seen run ended value :=
  ⟨Nat.le_of_eq hseen.symm, fun _ => .proceed, fun table _ => hrun table⟩

/-- **One run after another.** Their visits have different numbers, so the two tables are put together
at the number of nodes seen in the middle. -/
theorem trans {later : (Nat → Signal) → Outcome Unit (List Node) Empty β}
    (hrun : Foretold seen run mid value) (hlater : Foretold mid.state.length later ended result)
    (hwhole : ∀ table, run table = some (mid, value) → whole table = later table) :
    Foretold seen whole ended result := by
  obtain ⟨hseen, first, hfirst⟩ := hrun
  obtain ⟨hmid, second, hsecond⟩ := hlater
  refine ⟨Nat.le_trans hseen hmid, fun n => if n ≤ mid.state.length then first n else second n,
    fun table htable => ?_⟩
  have hcame : run table = some (mid, value) := by
    apply hfirst
    intro n hlow hhigh
    exact (htable n hlow (Nat.le_trans hhigh hmid)).trans (if_pos hhigh)
  have hleft : later table = some (ended, result) := by
    apply hsecond
    intro n hlow hhigh
    exact (htable n (Nat.lt_of_le_of_lt hseen hlow) hhigh).trans (if_neg (Nat.not_le.mpr hlow))
  rw [hwhole table hcame, hleft]

/-- What follows a run without a further visit asks for no further answer. -/
theorem map (hrun : Foretold seen run mid value) (hstate : ended.state = mid.state)
    (hwhole : ∀ table, run table = some (mid, value) → whole table = some (ended, result)) :
    Foretold seen whole ended result :=
  hrun.trans (.of_forall (congrArg List.length hstate) fun _ => rfl) hwhole

/-- **The answer of a visit** stands in the table in front of those that the work on its node asks
for. -/
theorem answered (signal : Signal) (hrun : Foretold (seen + 1) run mid value)
    (hstate : ended.state = mid.state)
    (hwhole : ∀ table, table (seen + 1) = signal → run table = some (mid, value) →
      whole table = some (ended, result)) :
    Foretold seen whole ended result := by
  obtain ⟨hseen, inner, hinner⟩ := hrun
  refine ⟨?_, fun n => if n = seen + 1 then signal else inner n, fun table htable => ?_⟩
  · rw [hstate]
    exact Nat.le_of_succ_le hseen
  · rw [hstate] at htable
    have hsignal : table (seen + 1) = signal :=
      (htable (seen + 1) (Nat.lt_succ_self seen) hseen).trans (if_pos rfl)
    refine hwhole table hsignal (hinner table fun n hlow hhigh => ?_)
    exact (htable n (Nat.lt_of_succ_lt hlow) hhigh).trans (if_neg (Nat.ne_of_gt hlow))

end Foretold

/-- **Visitors that can be foretold**: `told table` has the answers of a table, and what comes of
`act` comes of it with the right ones. -/
def Act.IsForetoldBy (act : Act Unit (List Node) Empty)
    (told : (Nat → Signal) → Act Unit (List Node) Empty) : Prop :=
  ∀ ⦃node session ended answer⦄, act () node session = some (ended, answer) →
    Foretold session.state.length (told · () node session) ended answer

namespace Session

variable {act : Act Unit (List Node) Empty} {told : (Nat → Signal) → Act Unit (List Node) Empty}
  {session ended : Session Unit (List Node) Empty} {tag : Tag} {parent : Node} {fuel : Nat}
  {result : Except Fault Unit}

/-! ## One function of a traversal after another -/

/-- The visit of a tag can be foretold, with its node opened before. -/
theorem foretold_visitTag (hact : act.IsForetoldBy told) {opened : Except Fault (Node × Signal)}
    (hrun : session.visitTag act () tag = some (ended, opened)) :
    Foretold session.state.length (fun table => session.visitTag (told table) () tag) ended opened := by
  rcases visitTag_eq_some hrun with ⟨fault, hopen, rfl, rfl⟩ | ⟨node, answer, hopen, hvisit, rfl⟩
  · exact .of_forall (by rw [state_openNode]) fun _ => visitTag_of_error hopen
  · obtain ⟨worked, hwork, rfl⟩ := visit_eq_some.mp hvisit
    have hforetold := hact hwork
    rw [state_record, state_openNode] at hforetold
    exact hforetold.map rfl fun _ htold => visitTag_of_ok hopen htold

/-- So can one tag among the children of a node. -/
theorem foretold_childStep (hact : act.IsForetoldBy told) {progress : Progress}
    (hrun : session.childStep act parent () = some (ended, progress)) :
    Foretold session.state.length (fun table => session.childStep (told table) parent ()) ended
      progress := by
  rcases childStep_eq_some hrun with ⟨fault, hnext, rfl, rfl⟩ | ⟨tag, hnext,
    ⟨hkind, rfl, rfl⟩ | ⟨hkind, rfl, rfl⟩ | ⟨hkind, hvisit⟩⟩
  · exact .of_forall rfl fun _ => childStep_of_error hnext
  · exact .of_forall rfl fun _ => childStep_of_closing hnext hkind
  · exact .of_forall (by rw [state_skipMarkup]) fun _ => childStep_of_markup hnext hkind
  · rcases hvisit with ⟨fault, hvisit, rfl⟩ | ⟨visited, child, signal, hvisit, hrest⟩
    · exact (foretold_visitTag hact hvisit).map rfl fun _ htold =>
        childStep_of_failed hnext hkind htold
    · -- the rest of the child is skipped with whatever the visit has left
      have hstate : ended.state = visited.state := by
        rw [← state_afterVisit visited child signal, hrest]
      refine (foretold_visitTag hact hvisit).map hstate fun _ htold => ?_
      rw [childStep_of_visited hnext hkind htold, hrest]

/-- **The children of a node can be foretold**, tag after tag: the fuel is that of the enumeration. -/
theorem foretold_scanChildren (hact : act.IsForetoldBy told)
    (hrun : scanChildren act parent () fuel session = some (ended, result)) :
    Foretold session.state.length (fun table => scanChildren (told table) parent () fuel session)
      ended result := by
  induction fuel generalizing session with
  | zero => cases hrun
  | succ fuel ih =>
    rcases scanChildren_eq_some hrun with hstep | ⟨stepped, hstep, hrest⟩
    · exact (foretold_childStep hact hstep).map rfl fun _ htold => scanChildren_of_finished htold
    · exact (foretold_childStep hact hstep).trans (ih hrest) fun _ htold => scanChildren_of_more htold

/-- Work in a scope can be foretold where the work can. -/
theorem foretold_withScope {element : Option Node}
    {work : Session Unit (List Node) Empty → Outcome Unit (List Node) Empty (Except Fault Unit)}
    {toldWork : (Nat → Signal) → Session Unit (List Node) Empty →
      Outcome Unit (List Node) Empty (Except Fault Unit)}
    (hwork : ∀ {entered worked answer}, work entered = some (worked, answer) →
      Foretold entered.state.length (toldWork · entered) worked answer)
    (hrun : session.withScope element work = some (ended, result)) :
    Foretold session.state.length (fun table => session.withScope element (toldWork table)) ended
      result := by
  rcases withScope_eq_some hrun with ⟨hfull, rfl, rfl⟩ | ⟨hroom, worked, hworked, rfl⟩
  · exact .of_forall (by rw [state_log]) fun _ => withScope_of_full hfull
  · have hforetold := hwork hworked
    rw [state_enterScope] at hforetold
    exact hforetold.map (state_leaveScope _) fun _ htold => withScope_of_room hroom htold

/-- **A descent can be foretold.** -/
theorem foretold_descend (hact : act.IsForetoldBy told)
    (hrun : session.descend act fuel parent () = some (ended, result)) :
    Foretold session.state.length (fun table => session.descend (told table) fuel parent ()) ended
      result := by
  obtain ⟨worked, hchildren, rfl⟩ := descend_eq_some hrun
  suffices hforetold : Foretold session.state.length (fun table =>
      (session.record (.descend parent ())).children (told table) fuel parent ()) worked result from
    hforetold.map rfl fun _ htold => descend_of_children htold
  cases hclosed : parent.selfClosing with
  | true =>
    rw [children_of_selfClosing hclosed] at hchildren
    cases hchildren
    exact .of_forall rfl fun _ => children_of_selfClosing hclosed
  | false =>
    rw [children_of_open hclosed] at hchildren
    simp only [children_of_open hclosed]
    exact foretold_withScope (foretold_scanChildren hact) hchildren

/-- The root element can be foretold. -/
theorem foretold_visitRoot (hact : act.IsForetoldBy told)
    (hrun : session.visitRoot act () = some (ended, result)) :
    Foretold session.state.length (fun table => session.visitRoot (told table) ()) ended result := by
  rcases visitRoot_eq_some hrun with ⟨fault, hnext, rfl, rfl⟩ | ⟨tag, hnext,
    ⟨hkind, rfl, rfl⟩ | ⟨hkind, answer, hvisit, rfl⟩⟩
  · exact .of_forall rfl fun _ => visitRoot_of_error hnext
  · exact .of_forall rfl fun _ => visitRoot_of_closing hnext hkind
  · exact (foretold_visitTag hact hvisit).map rfl fun _ htold =>
      visitRoot_of_visitTag hnext hkind htold

/-- **A parse can be foretold.** -/
theorem foretold_parse (hact : act.IsForetoldBy told)
    (hrun : session.parse act () = some (ended, result)) :
    Foretold session.state.length (fun table => session.parse (told table) ()) ended result := by
  obtain ⟨worked, hroot, rfl⟩ := parse_eq_some hrun
  suffices hforetold : Foretold session.state.length (fun table =>
      (session.beginParse ()).root (told table) ()) worked result from
    hforetold.map rfl fun _ htold => parse_of_root htold
  rcases root_eq_some hroot with ⟨fault, hskip, rfl, rfl⟩ | ⟨hskip, ⟨heof, rfl, rfl⟩ | ⟨hmore, hscope⟩⟩
  · exact .of_forall (by rw [state_skipProlog]; rfl) fun _ => root_of_broken hskip
  · rw [reader_skipProlog] at heof
    exact .of_forall (by rw [state_log, state_skipProlog]; rfl) fun _ => root_of_empty hskip heof
  · rw [reader_skipProlog] at hmore
    have hforetold := foretold_withScope (foretold_visitRoot hact) hscope
    rw [state_skipProlog] at hforetold
    exact hforetold.map rfl fun _ htold => (root_of_element hskip hmore).trans htold

end Session

/-! ## Late policies -/

namespace LatePolicy

/-- **What a late policy does with a node can be foretold.** Its answer is known when the work on the
node is done, and the table gives it as the visit's own number asks for it. -/
theorem foretold_run (late : LatePolicy) {act : Act Unit (List Node) Empty}
    {told : (Nat → Signal) → Act Unit (List Node) Empty} (hact : act.IsForetoldBy told) {fuel : Nat}
    {node : Node} {session ended : Session Unit (List Node) Empty} {answer : Except Fault Signal}
    (hrun : (late.cast () node).run act fuel session = some (ended, answer)) :
    Foretold session.state.length (fun table =>
      ((late.foretell table).cast () node).run (told table) fuel session) ended answer := by
  -- the session that the work on the node begins with
  let met : Session Unit (List Node) Empty := { session with state := node :: session.state }
  cases huse : late.use (node :: session.state) with
  | ignore =>
    simp only [cast, LatePolicy.answer, Script.run, huse] at hrun
    cases hrun
    have hmet : Foretold (session.state.length + 1) (fun _ => some (met, ())) met () :=
      .of_forall rfl fun _ => rfl
    refine hmet.answered (late.signal met.state met.state) rfl fun table hsignal _ => ?_
    simp only [Policy.cast, Script.run, foretell, huse, List.length_cons, hsignal]
    rfl
  | readBody =>
    simp only [cast, LatePolicy.answer, Script.run, huse] at hrun
    cases hrun
    have hread : Foretold (session.state.length + 1) (fun _ => some (met.readBody node))
        (met.readBody node).1 (met.readBody node).2 :=
      .of_forall (by rw [Session.state_readBody]; rfl) fun _ => rfl
    refine hread.answered (late.signal met.state (met.readBody node).1.state) rfl
      fun table hsignal _ => ?_
    simp only [Policy.cast, Script.run, foretell, huse, List.length_cons, hsignal]
    rfl
  | descend =>
    simp only [cast, LatePolicy.answer, Script.run, huse] at hrun
    cases hdescend : met.descend act fuel node () with
    | none =>
      rw [hdescend] at hrun
      cases hrun
    | some outcome =>
      obtain ⟨worked, result⟩ := outcome
      rw [hdescend] at hrun
      cases hrun
      refine (Session.foretold_descend hact hdescend).answered (late.signal met.state ended.state) rfl
        fun table hsignal htold => ?_
      simp only [Policy.cast, Script.run, foretell, huse, List.length_cons, hsignal]
      rw [htold]

/-- **All that a late policy does can be foretold**, at any depth: by induction on the fuel, which
bounds how deep the visits are nested. -/
theorem isForetoldBy_perform (late : LatePolicy) (fuel : Nat) :
    (perform late.cast fuel).IsForetoldBy fun table => perform (late.foretell table).cast fuel := by
  induction fuel with
  | zero => exact fun _ _ _ _ hrun => by cases hrun
  | succ fuel ih => exact fun _ _ _ _ hrun => late.foretold_run ih hrun

/-- **A completed parse of a late policy is one of a policy**: of any late policy, with any reader,
`late.parse fuel reader = some (ended, result)` gives a `policy` for which
`policy.parse fuel reader = some (ended, result)`. The two agree in the whole session `ended`, that is
in the reader, in the nodes seen and in every event of the trace. -/
theorem exists_policy (late : LatePolicy) {fuel : Nat} {reader : Reader}
    {ended : Session Unit (List Node) Empty} {result : Except Fault Unit}
    (hrun : late.parse fuel reader = some (ended, result)) :
    ∃ policy : Policy, policy.parse fuel reader = some (ended, result) := by
  obtain ⟨-, answers, htold⟩ := Session.foretold_parse (late.isForetoldBy_perform fuel) hrun
  exact ⟨late.foretell answers, htold answers fun _ _ _ => rfl⟩

/-- A late policy never asks for bytes again, since waiting asks for none: its scripts are
`IsForward`. -/
theorem isForward_cast (late : LatePolicy) (visitor : Unit) (node : Node) :
    (late.cast visitor node).IsForward := by
  intro seen
  cases huse : late.use (node :: seen) with
  | ignore => simp [Script.IsForward, LatePolicy.answer, huse]
  | readBody => simp [Script.IsForward, LatePolicy.answer, huse]
  | descend => simp [Script.IsForward, LatePolicy.answer, huse]

/-- **A late policy's parse ends**, with any `fuel` above the number of bytes that the reader has
left, and comes to what the parse of some `policy` comes to. So what holds of the parses of all
policies on a reader holds of those of all late policies on it. -/
theorem exists_parse_eq (late : LatePolicy) {fuel : Nat} {reader : Reader}
    (hfuel : reader.cursor.remainingLength < fuel) :
    ∃ (policy : Policy) (ended : Session Unit (List Node) Empty) (result : Except Fault Unit),
      late.parse fuel reader = some (ended, result) ∧
        policy.parse fuel reader = some (ended, result) := by
  have hact : (perform late.cast fuel).ReturnsBelow (fuel - 1) :=
    returnsBelow_perform late.isForward_cast fuel
  have hbelow : (Session.start reader [] : Session Unit (List Node) Empty).remainingLength ≤
      fuel - 1 := Nat.le_sub_one_of_lt hfuel
  obtain ⟨ended, result, hrun, -⟩ := Session.ends_parse hact hbelow ()
  obtain ⟨policy, hsame⟩ := late.exists_policy hrun
  exact ⟨policy, ended, result, hrun, hsame⟩

end LatePolicy

end TagWalk
