import TagWalk.Proofs.Scopes

/-! # Brackets

Scopes are logged when they are entered and when they are left, and the second record is made on the
way out, however the work inside has ended. So the records of scopes are brackets. They close what
they opened, unless a reset or a parse inside has dropped the scopes: then there is nothing to leave,
and the record that closes a bracket says just that.

* **`LogRecord.Nested`** — records that are properly nested, each with the number of brackets around
  it.
* **`Brackets`** — a stretch of work whose records are brackets, some of which may have lost their
  scope.
* **`KeepsBrackets.closed`** — all work is like that.
* **`brackets_of_parse`** — what a whole parse logs about scopes, whatever its visitors do. -/

namespace TagWalk

variable {ι σ ε α : Type}

namespace LogRecord

/-- Whether a record says that a scope was entered: an opening bracket. -/
def isEnter : LogRecord → Bool
  | enterScope .. => true
  | _ => false

/-- Whether a record says that a scope was left: a closing bracket. -/
def isLeave : LogRecord → Bool
  | leaveScope .. => true
  | _ => false

/-- **Properly nested records**, inside of `depth` open brackets: a scope that was entered is left,
`.enterScope element depth` and `.leaveScope element depth` with records in between that are nested
at `depth + 1`. So both show its element and the brackets around them. -/
inductive Nested : Nat → List LogRecord → Prop
  /-- Nothing is logged. -/
  | nil (depth : Nat) : Nested depth []
  /-- A record of another kind. -/
  | other {depth : Nat} {record : LogRecord} {rest : List LogRecord}
      (other : record.isOfScope = false) (more : Nested depth rest) : Nested depth (record :: rest)
  /-- A scope is entered and left. -/
  | scope {depth : Nat} {inner rest : List LogRecord} (element : Option Bytes)
      (work : Nested (depth + 1) inner) (more : Nested depth rest) :
      Nested depth (enterScope element depth :: (inner ++ leaveScope element depth :: rest))

end LogRecord

namespace Moment

/-- The records of a stretch, as `Moment.record?` finds them. -/
def recorded (moments : List (Moment ι ε)) : List LogRecord := moments.filterMap record?

/-- How many scopes are open after a stretch that leaves those it enters: `depth` as before, or `0`
if they were dropped. -/
def depthAfter (moments : List (Moment ι ε)) (depth : Nat) : Nat :=
  if anyDrops moments then 0 else depth

/-- The record of a scope that is left after a stretch: `.leaveScope element depth`, or
`.leaveScope none 0`, of there being none, when it was dropped. -/
def leaveAfter (moments : List (Moment ι ε)) (element : Option Bytes) (depth : Nat) : LogRecord :=
  if anyDrops moments then .leaveScope none 0 else .leaveScope element depth

/-- Either way, it is a record of a scope that is left. -/
@[simp] theorem isLeave_leaveAfter (moments : List (Moment ι ε)) (element : Option Bytes)
    (depth : Nat) : (leaveAfter moments element depth).isLeave = true := by
  unfold leaveAfter
  split <;> rfl

@[simp] theorem isEnter_leaveAfter (moments : List (Moment ι ε)) (element : Option Bytes)
    (depth : Nat) : (leaveAfter moments element depth).isEnter = false := by
  unfold leaveAfter
  split <;> rfl

/-- Whether an event neither logs a scope nor drops any. Such events do not count here. -/
def isBesideScopes (moment : Moment ι ε) : Bool :=
  match moment.event with
  | .log record => !record.isOfScope
  | .reset | .parse _ => false
  | _ => true

variable {moment : Moment ι ε} {first second : List (Moment ι ε)}

theorem recorded_cons (moment : Moment ι ε) (moments : List (Moment ι ε)) :
    recorded (moment :: moments) = moment.record?.toList ++ recorded moments := by
  unfold recorded
  rw [List.filterMap_cons]
  cases moment.record? with
  | none => rfl
  | some record => rfl

@[simp] theorem recorded_append (first second : List (Moment ι ε)) :
    recorded (first ++ second) = recorded first ++ recorded second := List.filterMap_append

/-- A logged record is recorded. -/
theorem record?_of_log {record : LogRecord} (h : moment.event = .log record) :
    moment.record? = some record := by
  rw [record?, h]

/-- Beside the scopes, at most a record of another kind is logged, one that is not `isOfScope`. -/
theorem isOfScope_of_isBesideScopes (h : moment.isBesideScopes = true) {record : LogRecord}
    (hrecord : moment.record? = some record) : record.isOfScope = false := by
  obtain ⟨level, reader, event⟩ := moment
  cases event with
  | log other =>
    cases hrecord
    simpa [isBesideScopes] using h
  | _ => cases hrecord

/-- Beside the scopes, no record is counted, neither by `isLeave` nor by `isEnter`. -/
theorem countP_of_isBesideScopes (h : moment.isBesideScopes = true) :
    moment.record?.toList.countP LogRecord.isLeave = 0 ∧
      moment.record?.toList.countP LogRecord.isEnter = 0 := by
  cases hrecord : moment.record? with
  | none => exact ⟨rfl, rfl⟩
  | some record =>
    have hother := isOfScope_of_isBesideScopes h hrecord
    cases record with
    | enterScope => cases hother
    | leaveScope => cases hother
    | _ => exact ⟨rfl, rfl⟩

/-- Beside the scopes, nothing is dropped: a reset or a parse is not beside them. -/
theorem dropsScopes_of_isBesideScopes (h : moment.isBesideScopes = true) :
    moment.dropsScopes = false := by
  obtain ⟨level, reader, event⟩ := moment
  cases event with
  | reset => cases h
  | parse => cases h
  | _ => rfl

/-- A record is no drop. -/
theorem dropsScopes_of_log {record : LogRecord} (h : moment.event = .log record) :
    moment.dropsScopes = false := by
  rw [dropsScopes, h]

/-- Scopes are dropped without a record. -/
theorem record?_of_dropsScopes (h : moment.dropsScopes = true) : moment.record? = none := by
  obtain ⟨level, reader, event⟩ := moment
  cases event with
  | reset => rfl
  | parse => rfl
  | _ => cases h

/-- One stretch after another: `depthAfter second` of `depthAfter first`, as a drop in either of
them leaves `0`. -/
theorem depthAfter_append (first second : List (Moment ι ε)) (depth : Nat) :
    depthAfter (first ++ second) depth = depthAfter second (depthAfter first depth) := by
  unfold depthAfter
  rw [anyDrops_append]
  cases anyDrops first <;> cases anyDrops second <;> rfl

/-- Beside the scopes, their number stays. -/
theorem depthAfter_cons (h : moment.dropsScopes = false) (moments : List (Moment ι ε)) (depth : Nat) :
    depthAfter (moment :: moments) depth = depthAfter moments depth := by
  rw [depthAfter, anyDrops_cons, h, Bool.false_or, depthAfter]

end Moment

/-! ## Bracketed stretches -/

/-- **A bracketed stretch**, with `depth` scopes open before it. A scope that is entered is left
after work that is bracketed itself, with the record `leaveAfter inner element depth`; if the scopes
were dropped in between, none is left to be left, and none is open behind. -/
inductive Brackets : Nat → List (Moment ι ε) → Prop
  /-- Nothing happens. -/
  | nil (depth : Nat) : Brackets depth []
  /-- Something beside the scopes happens. -/
  | beside {depth : Nat} {moment : Moment ι ε} {rest : List (Moment ι ε)}
      (beside : moment.isBesideScopes = true) (more : Brackets depth rest) :
      Brackets depth (moment :: rest)
  /-- All scopes are dropped. -/
  | drop {depth : Nat} {moment : Moment ι ε} {rest : List (Moment ι ε)}
      (drops : moment.dropsScopes = true) (more : Brackets 0 rest) : Brackets depth (moment :: rest)
  /-- A scope is entered and left. -/
  | scope {depth : Nat} {enter leave : Moment ι ε} {inner rest : List (Moment ι ε)}
      (element : Option Bytes) (entered : enter.event = .log (.enterScope element depth))
      (work : Brackets (depth + 1) inner)
      (left : leave.event = .log (Moment.leaveAfter inner element depth))
      (more : Brackets (Moment.depthAfter inner depth) rest) :
      Brackets depth (enter :: (inner ++ leave :: rest))

namespace Brackets

open Moment

variable {depth : Nat} {moments first second : List (Moment ι ε)}

/-- **One bracketed stretch after another**, where the second begins with `depthAfter first depth`
scopes open. -/
theorem append (h₁ : Brackets depth first) (h₂ : Brackets (depthAfter first depth) second) :
    Brackets depth (first ++ second) := by
  induction h₁ with
  | nil => exact h₂
  | beside hbeside _ ih =>
    rw [depthAfter_cons (dropsScopes_of_isBesideScopes hbeside)] at h₂
    exact .beside hbeside (ih h₂)
  | @drop depth moment rest hdrops _ ih =>
    -- no scope is open behind a drop, whatever comes then
    have hzero : depthAfter (moment :: rest) depth = depthAfter rest 0 := by
      rw [depthAfter, anyDrops_cons, hdrops, depthAfter]
      cases anyDrops rest <;> rfl
    exact .drop hdrops (ih (hzero ▸ h₂))
  | scope element hentered work hleft _ _ ih =>
    rw [depthAfter_cons (dropsScopes_of_log hentered), depthAfter_append,
      depthAfter_cons (dropsScopes_of_log hleft)] at h₂
    rw [List.cons_append, List.append_assoc, List.cons_append]
    exact .scope element hentered work hleft (ih h₂)

/-- Events beside the scopes may come first. -/
theorem append_beside (hbeside : ∀ moment ∈ first, moment.isBesideScopes = true)
    (h : Brackets depth second) : Brackets depth (first ++ second) := by
  induction first with
  | nil => exact h
  | cons moment first ih =>
    exact .beside (hbeside moment List.mem_cons_self)
      (ih fun other hm => hbeside other (List.mem_cons_of_mem _ hm))

/-- Or there may be nothing else. -/
theorem of_beside (hbeside : ∀ moment ∈ moments, moment.isBesideScopes = true) :
    Brackets depth moments :=
  List.append_nil moments ▸ append_beside hbeside (.nil depth)

/-- The records of a scope that is entered and left stand around those of the work inside, and in
front of those of the `rest`. -/
theorem recorded_scope {enter leave : Moment ι ε} {inner : List (Moment ι ε)} {element : Option Bytes}
    (entered : enter.event = .log (.enterScope element depth))
    (left : leave.event = .log (leaveAfter inner element depth)) (rest : List (Moment ι ε)) :
    recorded (enter :: (inner ++ leave :: rest)) =
      .enterScope element depth :: (recorded inner ++ leaveAfter inner element depth ::
        recorded rest) := by
  rw [recorded_cons, recorded_append, recorded_cons, record?_of_log entered, record?_of_log left]
  rfl

/-- Without a drop, the records are properly nested: then every `leaveAfter` is the `.leaveScope` of
its enter. -/
theorem nested (h : Brackets depth moments) (hkeep : anyDrops moments = false) :
    LogRecord.Nested depth (recorded moments) := by
  induction h with
  | nil => exact .nil _
  | @beside depth moment rest hbeside _ ih =>
    rw [anyDrops_cons, Bool.or_eq_false_iff] at hkeep
    rw [recorded_cons]
    cases hrecord : moment.record? with
    | none => exact ih hkeep.2
    | some record => exact .other (isOfScope_of_isBesideScopes hbeside hrecord) (ih hkeep.2)
  | drop hdrops =>
    rw [anyDrops_cons, hdrops] at hkeep
    cases hkeep
  -- without a drop inside, the depth behind the work is the one in front of it
  | @scope depth enter leave inner rest element hentered _ hleft _ ihwork ihmore =>
    rw [anyDrops_cons, anyDrops_append, anyDrops_cons] at hkeep
    simp only [Bool.or_eq_false_iff] at hkeep
    obtain ⟨-, hinner, -, hrest⟩ := hkeep
    have hleave : leaveAfter inner element depth = .leaveScope element depth := by
      rw [leaveAfter, hinner]
      rfl
    rw [depthAfter, hinner] at ihmore
    rw [recorded_scope hentered hleft, hleave]
    exact .scope element (ihwork hinner) (ihmore hrest)

/-- Behind the record of an entered scope, one more is counted by `isEnter`, and none by
`isLeave`. -/
theorem countP_recorded_enter {enter : Moment ι ε} {element : Option Bytes}
    (entered : enter.event = .log (.enterScope element depth)) (moments : List (Moment ι ε)) :
    (recorded (enter :: moments)).countP LogRecord.isEnter =
        (recorded moments).countP LogRecord.isEnter + 1 ∧
      (recorded (enter :: moments)).countP LogRecord.isLeave =
        (recorded moments).countP LogRecord.isLeave := by
  rw [recorded_cons, record?_of_log entered]
  exact ⟨List.countP_cons_of_pos rfl, List.countP_cons_of_neg Bool.false_ne_true⟩

/-- And so it is behind that of a scope that is left, or was dropped: one more by `isLeave`, as
`isLeave_leaveAfter` says. -/
theorem countP_recorded_leave {leave : Moment ι ε} {inner : List (Moment ι ε)} {element : Option Bytes}
    (left : leave.event = .log (leaveAfter inner element depth)) (moments : List (Moment ι ε)) :
    (recorded (leave :: moments)).countP LogRecord.isEnter =
        (recorded moments).countP LogRecord.isEnter ∧
      (recorded (leave :: moments)).countP LogRecord.isLeave =
        (recorded moments).countP LogRecord.isLeave + 1 := by
  rw [recorded_cons, record?_of_log left]
  exact ⟨List.countP_cons_of_neg (by simp), List.countP_cons_of_pos (by simp)⟩

/-- **As many scopes are left as are entered**, whether or not they were dropped in between. -/
theorem countP_eq (h : Brackets depth moments) :
    (recorded moments).countP LogRecord.isLeave = (recorded moments).countP LogRecord.isEnter := by
  induction h with
  | nil => rfl
  | beside hbeside _ ih =>
    obtain ⟨hleave, henter⟩ := countP_of_isBesideScopes hbeside
    rw [recorded_cons, List.countP_append, List.countP_append, hleave, henter, ih]
  | drop hdrops _ ih =>
    rw [recorded_cons, record?_of_dropsScopes hdrops]
    exact ih
  | @scope depth enter leave inner rest element hentered _ hleft _ ihwork ihmore =>
    have henter := countP_recorded_enter hentered (inner ++ leave :: rest)
    have hleave := countP_recorded_leave hleft rest
    rw [recorded_append, List.countP_append, List.countP_append] at henter
    -- both counts are one more than those of the work and of what follows it
    omega

/-- **At no time have more scopes been left than entered**: so it is in every `front <+:
moments`. -/
theorem countP_le (h : Brackets depth moments) {front : List (Moment ι ε)} (hfront : front <+: moments) :
    (recorded front).countP LogRecord.isLeave ≤ (recorded front).countP LogRecord.isEnter := by
  induction h generalizing front with
  | nil => rw [List.prefix_nil.mp hfront]; exact Nat.le_refl _
  | beside hbeside _ ih =>
    rcases List.prefix_cons_iff.mp hfront with rfl | ⟨more, rfl, hmore⟩
    · exact Nat.le_refl _
    · obtain ⟨hleave, henter⟩ := countP_of_isBesideScopes hbeside
      rw [recorded_cons, List.countP_append, List.countP_append, hleave, henter]
      exact Nat.add_le_add_left (ih hmore) 0
  | drop hdrops _ ih =>
    rcases List.prefix_cons_iff.mp hfront with rfl | ⟨more, rfl, hmore⟩
    · exact Nat.le_refl _
    · rw [recorded_cons, record?_of_dropsScopes hdrops]
      exact ih hmore
  | @scope depth enter leave inner rest element hentered hwork hleft _ ihwork ihmore =>
    rcases List.prefix_cons_iff.mp hfront with rfl | ⟨more, rfl, hmore⟩
    · exact Nat.le_refl _
    · have henter := countP_recorded_enter hentered more
      rcases List.prefix_or_prefix_of_prefix hmore (List.prefix_append inner (leave :: rest)) with
        hinside | ⟨behind, rfl⟩
      · -- the front ends inside of the scope
        have hle := ihwork hinside
        omega
      · have heq := hwork.countP_eq
        rw [recorded_append, List.countP_append, List.countP_append] at henter
        rcases List.prefix_cons_iff.mp ((List.prefix_append_right_inj inner).mp hmore) with
          rfl | ⟨last, rfl, hlast⟩
        · simp only [recorded, List.filterMap_nil, List.countP_nil] at henter heq ⊢
          omega
        · have hle := ihmore hlast
          have hleave := countP_recorded_leave hleft last
          omega

end Brackets

/-! ## All work -/

/-- A scope that is left says which one it was, or that there was none: the record is
`Moment.leaveAfter moments`. -/
theorem Reader.leaveScope_eq {reader : Reader} {moments : List (Moment ι ε)} {element : Option Node}
    {scopes : List Scope}
    (h : reader.scopes = if Moment.anyDrops moments then [] else Scope.of element :: scopes) :
    reader.leaveScope.2 = Moment.leaveAfter moments (Scope.of element).element scopes.length := by
  unfold Reader.leaveScope Moment.leaveAfter
  cases hdrops : Moment.anyDrops moments with
  | true =>
    rw [hdrops] at h
    rw [h]
    rfl
  | false =>
    rw [hdrops] at h
    rw [h]
    rfl

/-- **A stretch that keeps the scopes and is bracketed.** The first half says how the stack changes,
and so what the records of the second half show. -/
structure KeepsBrackets (before : Reader) (moments : List (Moment ι ε)) (after : Reader) : Prop
    extends KeepsScopes before moments after where
  /-- The records of scopes are brackets. -/
  brackets : Brackets before.depth moments

namespace KeepsBrackets

variable {before between after : Reader} {first second moments : List (Moment ι ε)}

/-- The scopes that are open behind a stretch are counted by `Moment.depthAfter`. -/
theorem depth_eq (h : KeepsBrackets before first after) :
    after.depth = Moment.depthAfter first before.depth := by
  rw [Reader.depth, h.scopes_eq, Moment.depthAfter]
  split <;> rfl

/-- One stretch after another, which is `Brackets.append` at the depth of the reader in between. -/
theorem append (h₁ : KeepsBrackets before first between) (h₂ : KeepsBrackets between second after) :
    KeepsBrackets before (first ++ second) after :=
  ⟨h₁.toKeepsScopes.append h₂.toKeepsScopes, h₁.brackets.append (h₁.depth_eq ▸ h₂.brackets)⟩

/-- Logged moments are beside the scopes when no record is of a scope. -/
theorem isBesideScopes_logs {level : Nat} {reader : Reader} {records : List LogRecord}
    (h : ∀ record ∈ records, record.isOfScope = false) :
    ∀ moment ∈ (Moment.logs level reader records : List (Moment ι ε)),
      moment.isBesideScopes = true := by
  refine List.forall_mem_map.mpr fun record hrecord => ?_
  simp [Moment.isBesideScopes, h record hrecord]

/-- A reported step is bracketed when its event and its records are beside the scopes, as those of
reads and skips are. -/
theorem brackets_reported {depth level : Nat} {reader : Reader} {logged : Logged α}
    {event : Except Fault α → Event ι ε} (hrecords : ∀ record ∈ logged.log, record.isOfScope = false)
    (hevent : (⟨level, reader, event logged.result⟩ : Moment ι ε).isBesideScopes = true) :
    Brackets depth (Moment.reported level reader logged event) := by
  refine .of_beside (List.forall_mem_append.mpr ⟨?_, ?_⟩)
  · exact isBesideScopes_logs hrecords
  · exact List.forall_mem_singleton.mpr hevent

/-- A stretch between two events beside the scopes is bracketed when it is without them. -/
theorem brackets_around {depth : Nat} {begun ended : Moment ι ε} (hbegun : begun.isBesideScopes = true)
    (hended : ended.isBesideScopes = true) (h : Brackets depth moments) :
    Brackets depth (begun :: (moments ++ [ended])) :=
  .beside hbegun (h.append (.beside hended (.nil _)))

/-- **Work in a scope** is bracketed: it was refused the scope with one record, or it stands between
an enter and the `leaveAfter` of its own moments. -/
theorem brackets_of_scoped {level : Nat} {element : Option Node} {result : Except Fault Unit}
    (h : Course.Scoped KeepsBrackets level element before moments after result) :
    Brackets before.depth moments := by
  cases h with
  | refused => exact .beside rfl (.nil _)
  | entered _ _ work =>
    exact .scope (Scope.of element).element rfl work.brackets
      (congrArg Event.log (Reader.leaveScope_eq work.scopes_eq)) (.nil _)

/-- **The work of a parse** is bracketed: the records of the prolog are beside the scopes, and the
root element is visited in a scope. -/
theorem brackets_of_rooted {level : Nat} {result : Except Fault Unit}
    (h : Course.Rooted KeepsBrackets level before moments after result) :
    Brackets before.depth moments := by
  have hskipped : ∀ moment ∈ (Moment.logs level (Course.behindProlog before)
      before.cursor.skipProlog.2.log : List (Moment ι ε)), moment.isBesideScopes = true :=
    isBesideScopes_logs fun _ => Cursor.isOfScope_of_mem_skipProlog
  cases h with
  | broken => exact .of_beside hskipped
  | empty =>
    refine .of_beside (isBesideScopes_logs (List.forall_mem_append.mpr ⟨?_, ?_⟩))
    · exact fun _ => Cursor.isOfScope_of_mem_skipProlog
    · exact List.forall_mem_singleton.mpr rfl
  | element _ _ work =>
    have hwork := brackets_of_scoped work
    exact .append_beside hskipped hwork

/-- **All work is bracketed**: `KeepsBrackets` has what `Course.Closed` asks for, one lemma for each
kind of stretch. -/
theorem closed : Course.Closed (KeepsBrackets : Course ι ε) where
  -- each field pairs what `KeepsScopes` says of the stacks with the brackets of the records
  nil reader := ⟨KeepsScopes.closed.nil reader, .nil _⟩
  append := append
  remark level reader note := ⟨KeepsScopes.closed.remark level reader note, .beside rfl (.nil _)⟩
  reset level reader := ⟨KeepsScopes.closed.reset level reader, .drop rfl (.nil _)⟩
  readBody level reader node := ⟨KeepsScopes.closed.readBody level reader node,
    brackets_reported (fun _ => Reader.isOfScope_of_mem_readBody) rfl⟩
  skip level reader node := ⟨KeepsScopes.closed.skip level reader node,
    brackets_reported (fun _ => Reader.isOfScope_of_mem_readBody) rfl⟩
  skipMarkup level _ _ next kind :=
    ⟨KeepsScopes.closed.skipMarkup level next kind, .beside rfl (.nil _)⟩
  close level _ _ parent next kind :=
    ⟨KeepsScopes.closed.close level parent next kind, .beside rfl (.nil _)⟩
  broken level _ _ _ next kind decoded := ⟨KeepsScopes.closed.broken level next kind decoded,
    .of_beside (isBesideScopes_logs fun _ => Reader.isOfScope_of_mem_openNode)⟩
  visit level reader after tag node inner visitor result next kind decoded work := by
    refine ⟨KeepsScopes.closed.visit level visitor result next kind decoded work.toKeepsScopes, ?_⟩
    refine .append_beside (isBesideScopes_logs fun _ => Reader.isOfScope_of_mem_openNode) ?_
    exact brackets_around rfl rfl work.brackets
  descendEmpty level reader _ visitor isClosed :=
    ⟨KeepsScopes.closed.descendEmpty level reader visitor isClosed, brackets_around rfl rfl (.nil _)⟩
  descend level _ _ _ _ _ visitor notClosed work :=
    ⟨KeepsScopes.closed.descend level visitor notClosed (work.imp fun _ _ _ h => h.toKeepsScopes),
      brackets_around rfl rfl (brackets_of_scoped work)⟩
  parse level _ _ _ _ visitor work :=
    ⟨KeepsScopes.closed.parse level visitor (work.imp fun _ _ _ h => h.toKeepsScopes),
      .drop rfl ((brackets_of_rooted work).append (.beside rfl (.nil _)))⟩

end KeepsBrackets

/-! ## Whole parses -/

/-- **What happens in a parse** is bracketed behind its first event, which drops the scopes:
`ended.since session = begun :: inner` with `Brackets 0 inner`. -/
theorem Session.exists_brackets_of_parse {act : Act ι σ ε}
    (hact : act.Follows (KeepsBrackets : Course ι ε)) {visitor : ι} {session ended : Session ι σ ε}
    {result : Except Fault Unit} (hrun : session.parse act visitor = some (ended, result)) :
    ∃ begun inner, ended.since session = begun :: inner ∧ begun.event = .parse visitor ∧
      Brackets 0 inner := by
  obtain ⟨worked, hroot, rfl⟩ := Session.parse_eq_some hrun
  have hrooted := hact.rooted hroot
  -- the last event is `.parsed`, and is beside the scopes
  have hsince : session.Follows (fun _ moments _ => ∃ begun inner, moments = begun :: inner ∧
      begun.event = .parse visitor ∧ Brackets 0 inner) (worked.record (.parsed result)) := by
    refine hrooted.around [⟨session.level, session.reader.dropScopes, .parse visitor⟩]
      [⟨session.level, worked.reader, .parsed result⟩] rfl rfl (trace_record _ _) ?_ ?_ ?_ ?_
    · rw [trace_record, hrooted.1]
      rfl
    · simp
    · simp
    · intro inner hinner
      have hbrackets := KeepsBrackets.brackets_of_rooted
        (hinner.imp fun _ _ _ => KeepsBrackets.closed.of_rootVisiting)
      exact ⟨_, _, rfl, rfl, hbrackets.append (.beside rfl (.nil _))⟩
  exact hsince.since

/-- **The records of scopes are brackets**, whatever the visitors of a parse do and however it ends.
`countP isLeave` is `countP isEnter`, and in no prefix is it more. Unless a visitor resets the
reader or has it parse again, the records are properly nested, `LogRecord.Nested 0`: each leave
shows the element of its enter and the number of scopes around it. If visitors do so, `Brackets 0`
still holds: a leave shows that much as long as the scopes were not dropped since its enter, and
`.leaveScope none 0` otherwise, that there was no scope to leave. -/
theorem brackets_of_parse (cast : Cast ι σ ε) {calls : Nat} {visitor : ι}
    {session ended : Session ι σ ε} {result : Except Fault Unit}
    (hrun : session.parse (perform cast calls) visitor = some (ended, result)) :
    (Moment.recorded (ended.since session)).countP LogRecord.isLeave =
        (Moment.recorded (ended.since session)).countP LogRecord.isEnter ∧
      (∀ front, front <+: Moment.recorded (ended.since session) →
        front.countP LogRecord.isLeave ≤ front.countP LogRecord.isEnter) ∧
      (Moment.anyDrops (ended.since session).tail = false →
        LogRecord.Nested 0 (Moment.recorded (ended.since session))) ∧
      Brackets 0 (ended.since session) := by
  have hact := KeepsBrackets.closed.composed.follows_perform cast calls
  obtain ⟨begun, inner, hsince, hevent, hinner⟩ := Session.exists_brackets_of_parse hact hrun
  have hdrops : begun.dropsScopes = true := by rw [Moment.dropsScopes, hevent]
  have hall : Brackets 0 (ended.since session) := hsince ▸ .drop hdrops hinner
  refine ⟨hall.countP_eq, ?_, ?_, hall⟩
  · intro front hfront
    -- the records of a front are those of a front of the stretch
    obtain ⟨moments, hmoments, rfl⟩ := List.prefix_filterMap_iff.mp hfront
    exact hall.countP_le hmoments
  · intro hkeep
    rw [hsince] at hkeep ⊢
    rw [Moment.recorded_cons, Moment.record?_of_dropsScopes hdrops]
    exact hinner.nested hkeep

/-- The visitors that descend into every node, or send the reader back from the children of a node. -/
def descendAndReset : Cast Bool Unit Empty := fun resets node =>
  if resets then .reset (.done (.ok .stop))
  else .descend node (node.name == [0x62]) fun result => .done (result.map fun _ => .proceed)

/-- A session at the front of a document. -/
def sessionAtFront (document : Bytes) : Session Bool Unit Empty :=
  .start (.ofDocument document .lenient) ()

/-- The document `<a></a>`. -/
def documentOfA : Bytes := [0x3C, 0x61, 0x3E, 0x3C, 0x2F, 0x61, 0x3E]

/-- The document `<a><b><c/></b></a>`. -/
def documentOfABC : Bytes :=
  [0x3C, 0x61, 0x3E, 0x3C, 0x62, 0x3E, 0x3C, 0x63, 0x2F, 0x3E, 0x3C, 0x2F, 0x62, 0x3E, 0x3C, 0x2F, 0x61,
    0x3E]

/-- The scopes of `<a></a>` are nested. Where the visit of `c` in `<a><b><c/></b></a>` sends the
reader back, the scopes of `b`, of `a` and of the document are lost, and each of them is left as
`.leaveScope none 0`. -/
theorem brackets_of_parse_descendAndReset :
    (∃ ended, (sessionAtFront documentOfA).parse (perform descendAndReset 4) false =
        some (ended, .ok ()) ∧
      Moment.recorded (ended.since (sessionAtFront documentOfA)) =
        [.enterScope none 0, .enterScope (some [0x61]) 1, .leaveScope (some [0x61]) 1,
          .leaveScope none 0] ∧
      LogRecord.Nested 0 (Moment.recorded (ended.since (sessionAtFront documentOfA)))) ∧
    ∃ ended, (sessionAtFront documentOfABC).parse (perform descendAndReset 4) false =
        some (ended, .ok ()) ∧
      Moment.recorded (ended.since (sessionAtFront documentOfABC)) =
        [.enterScope none 0, .enterScope (some [0x61]) 1, .enterScope (some [0x62]) 2,
          .leaveScope none 0, .leaveScope none 0, .leaveScope none 0] ∧
      Brackets 0 (ended.since (sessionAtFront documentOfABC)) := by
  have hnested : ∃ ended, (sessionAtFront documentOfA).parse (perform descendAndReset 4) false =
        some (ended, .ok ()) ∧
      Moment.recorded (ended.since (sessionAtFront documentOfA)) =
        [.enterScope none 0, .enterScope (some [0x61]) 1, .leaveScope (some [0x61]) 1,
          .leaveScope none 0] ∧
      Moment.anyDrops (ended.since (sessionAtFront documentOfA)).tail = false :=
    ⟨_, by with_unfolding_all rfl, by with_unfolding_all rfl, by with_unfolding_all rfl⟩
  have hlost : ∃ ended, (sessionAtFront documentOfABC).parse (perform descendAndReset 4) false =
        some (ended, .ok ()) ∧
      Moment.recorded (ended.since (sessionAtFront documentOfABC)) =
        [.enterScope none 0, .enterScope (some [0x61]) 1, .enterScope (some [0x62]) 2,
          .leaveScope none 0, .leaveScope none 0, .leaveScope none 0] :=
    ⟨_, by with_unfolding_all rfl, by with_unfolding_all rfl⟩
  obtain ⟨kept, hkept, hrecords, hkeep⟩ := hnested
  obtain ⟨lost, hdone, hnone⟩ := hlost
  exact ⟨⟨kept, hkept, hrecords, (brackets_of_parse descendAndReset hkept).2.2.1 hkeep⟩,
    lost, hdone, hnone, (brackets_of_parse descendAndReset hdone).2.2.2⟩

end TagWalk
