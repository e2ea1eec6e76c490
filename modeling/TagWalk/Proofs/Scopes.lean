import TagWalk.Proofs.Course

/-! # The discipline of scopes

Every descent and every parse opens one scope and leaves one, and a reset or a parse inside of it
may drop all scopes in between. What the scope stack is at each moment can be told from the events
alone, and a **scope watch** tells it: it keeps the calls that are open, each with the scopes that
are open inside of it and those that it leaves behind.

* **`ScopeWatch.Allows`** — what the stack has to be at a moment.
* **`scopes_of_run`** — the watch allows every moment of every run, whatever the visitors do.
-/

namespace TagWalk

variable {ι σ ε α : Type}

/-- A call that is open at some moment: a descent or a parse, with the scopes `inside` of it and
those that it has `left` behind in the end. -/
structure OpenCall where
  /-- The scopes that are open while its visitors are called. -/
  inside : List Scope
  /-- The scopes that are open when it has left its own. -/
  left : List Scope

namespace OpenCall

/-- A call that opens a scope over the scopes it found: `Scope.of element :: found` inside, and
`found` behind it. -/
def onto (element : Option Node) (found : List Scope) : OpenCall := ⟨Scope.of element :: found, found⟩

/-- A call whose scope was dropped, and all those around it: no scope is open inside of it, and none
is left behind. -/
def dropped : OpenCall := ⟨[], []⟩

end OpenCall

/-- The calls that are open, the innermost first, and the scopes that are open. -/
structure ScopeWatch where
  /-- The open calls. -/
  calls : List OpenCall
  /-- The open scopes, as of the moment before. -/
  scopes : List Scope

namespace ScopeWatch

/-- A watch that begins inside of some call, with its scopes open, and in which that call is not
left. -/
def inside (scopes : List Scope) : ScopeWatch := ⟨[⟨scopes, scopes⟩], scopes⟩

/-- **The watch goes on.** A descent or a parse is a call until it ends, and a reset or a parse drops
the scopes of every call that is open. -/
def step (watch : ScopeWatch) (moment : Moment ι ε) : ScopeWatch where
  calls :=
    match moment.event with
    | .reset => watch.calls.map fun _ => .dropped
    | .parse _ => .onto none [] :: watch.calls.map fun _ => .dropped
    | .descend parent _ => .onto (some parent) watch.scopes :: watch.calls
    | .parsed _ | .descended .. => watch.calls.tail
    | _ => watch.calls
  scopes := moment.reader.scopes

/-- **What a watch allows at a moment.** Never are there more scopes than the options admit, and the
stack changes at a few events only: a reset or a parse empties it, the record of an entered scope
finds the scopes that the call is to leave behind and puts one on top, the record of a left scope
takes that very one off, or nothing if it was dropped. At a visit, exactly the scopes of the call
that makes it are open. -/
def Allows (watch : ScopeWatch) (moment : Moment ι ε) : Prop :=
  moment.reader.depth ≤ moment.reader.options.maxDepth ∧
    match moment.event with
    | .reset | .parse _ => moment.reader.scopes = []
    | .log (.enterScope _ _) =>
        ∃ call outer, watch.calls = call :: outer ∧ watch.scopes = call.left ∧
          moment.reader.scopes = call.inside
    | .log (.leaveScope _ _) =>
        ∃ call outer, watch.calls = call :: outer ∧ watch.scopes = call.inside ∧
          moment.reader.scopes = call.left
    | .visit .. =>
        ∃ call outer, watch.calls = call :: outer ∧ watch.scopes = call.inside ∧
          moment.reader.scopes = call.inside
    | .descended .. =>
        ∃ call outer, watch.calls = call :: outer ∧ watch.scopes = call.left ∧
          moment.reader.scopes = call.left
    | .parsed _ => watch.scopes = [] ∧ moment.reader.scopes = []
    | _ => moment.reader.scopes = watch.scopes

/-- A watch **accepts** a stretch when it allows one moment after another, each after a `step` over
the moments before it. -/
def Accepts : ScopeWatch → List (Moment ι ε) → Prop
  | _, [] => True
  | watch, moment :: moments => watch.Allows moment ∧ (watch.step moment).Accepts moments

/-- The watch after a stretch: `moments.foldl step watch`. -/
def follow (watch : ScopeWatch) (moments : List (Moment ι ε)) : ScopeWatch :=
  moments.foldl step watch

@[simp] theorem accepts_nil (watch : ScopeWatch) : watch.Accepts ([] : List (Moment ι ε)) := trivial

@[simp] theorem accepts_cons {watch : ScopeWatch} {moment : Moment ι ε}
    {moments : List (Moment ι ε)} :
    watch.Accepts (moment :: moments) ↔
      watch.Allows moment ∧ (watch.step moment).Accepts moments := Iff.rfl

@[simp] theorem follow_nil (watch : ScopeWatch) : watch.follow ([] : List (Moment ι ε)) = watch := rfl

@[simp] theorem follow_cons (watch : ScopeWatch) (moment : Moment ι ε)
    (moments : List (Moment ι ε)) :
    watch.follow (moment :: moments) = (watch.step moment).follow moments := rfl

theorem follow_append (watch : ScopeWatch) (first second : List (Moment ι ε)) :
    watch.follow (first ++ second) = (watch.follow first).follow second :=
  List.foldl_append

/-- One stretch after another is accepted when each is, by the watch of its time: the second by
`watch.follow first`. -/
theorem accepts_append {watch : ScopeWatch} {first second : List (Moment ι ε)} :
    watch.Accepts (first ++ second) ↔
      watch.Accepts first ∧ (watch.follow first).Accepts second := by
  induction first generalizing watch with
  | nil => simp
  | cons moment first ih => simp [ih, and_assoc]

end ScopeWatch

/-- Whether an event drops all scopes, as `.reset` and `.parse` do. -/
def Moment.dropsScopes (moment : Moment ι ε) : Bool :=
  match moment.event with
  | .reset | .parse _ => true
  | _ => false

/-- Whether all scopes are dropped at some moment of a stretch. -/
def Moment.anyDrops (moments : List (Moment ι ε)) : Bool := moments.any Moment.dropsScopes

@[simp] theorem Moment.anyDrops_nil : anyDrops ([] : List (Moment ι ε)) = false := rfl

@[simp] theorem Moment.anyDrops_cons (moment : Moment ι ε) (moments : List (Moment ι ε)) :
    anyDrops (moment :: moments) = (moment.dropsScopes || anyDrops moments) := rfl

@[simp] theorem Moment.anyDrops_append (first second : List (Moment ι ε)) :
    anyDrops (first ++ second) = (anyDrops first || anyDrops second) := List.any_append

namespace OpenCall

/-- A call after a stretch: as it was, unless all scopes have been dropped in the stretch, and then
`dropped`. -/
def through (moments : List (Moment ι ε)) (call : OpenCall) : OpenCall :=
  if Moment.anyDrops moments then dropped else call

@[simp] theorem through_dropped (moments : List (Moment ι ε)) :
    dropped.through moments = dropped := by
  simp [through]

/-- A call after one stretch and then another: `(call.through first).through second`. -/
theorem through_append (first second : List (Moment ι ε)) (call : OpenCall) :
    call.through (first ++ second) = (call.through first).through second := by
  unfold through
  rw [Moment.anyDrops_append]
  cases Moment.anyDrops first with
  | true => simp
  | false => simp

/-- Calls after a stretch without a drop are as they were. -/
theorem map_through_of_keep {moments : List (Moment ι ε)} (h : Moment.anyDrops moments = false)
    (calls : List OpenCall) : calls.map (through moments) = calls := by
  have hid : through moments = id := funext fun call => by simp [through, h]
  rw [hid, List.map_id]

/-- Calls after a stretch with a drop have lost their scopes. -/
theorem map_through_of_drop {moments : List (Moment ι ε)} (h : Moment.anyDrops moments = true)
    (calls : List OpenCall) : calls.map (through moments) = calls.map fun _ => dropped := by
  have hconst : through moments = fun _ => dropped := funext fun call => by simp [through, h]
  rw [hconst]

end OpenCall

/-! ## Watched stretches -/

/-- **A stretch that a watch accepts** inside of a call, whatever calls are open around it. The
`outer` calls are carried along, since a drop of the scopes concerns them too. -/
structure Watched (call : OpenCall) (before : Reader) (moments : List (Moment ι ε))
    (after : Reader) : Prop where
  /-- The bound on scopes is kept. -/
  depth_le (h : before.depth ≤ before.options.maxDepth) : after.depth ≤ after.options.maxDepth
  /-- The watch allows every moment. -/
  accepts (outer : List OpenCall) (h : before.depth ≤ before.options.maxDepth) :
    ScopeWatch.Accepts ⟨call :: outer, before.scopes⟩ moments
  /-- The watch ends with the same calls, unless their scopes were dropped. -/
  follow_eq (outer : List OpenCall) :
    ScopeWatch.follow ⟨call :: outer, before.scopes⟩ moments =
      ⟨(call :: outer).map (OpenCall.through moments), after.scopes⟩

namespace Watched

variable {call : OpenCall} {before between after : Reader} {first second : List (Moment ι ε)}

/-- **One watched stretch after another**: the second is watched inside of `call.through first`. -/
theorem append (h₁ : Watched call before first between)
    (h₂ : Watched (call.through first) between second after) :
    Watched call before (first ++ second) after := by
  refine ⟨fun hdepth => h₂.depth_le (h₁.depth_le hdepth), ?_, ?_⟩
  · intro outer hdepth
    rw [ScopeWatch.accepts_append, h₁.follow_eq]
    exact ⟨h₁.accepts outer hdepth, h₂.accepts _ (h₁.depth_le hdepth)⟩
  · intro outer
    rw [ScopeWatch.follow_append, h₁.follow_eq, List.map_cons, h₂.follow_eq, ← List.map_cons,
      List.map_map]
    refine congrArg (ScopeWatch.mk · after.scopes) (List.map_congr_left ?_)
    intro call _
    exact (OpenCall.through_append first second call).symm

end Watched

/-- **A stretch keeps the scopes**: they are at its end as they were before it, or all of them have
been dropped, `Moment.anyDrops moments`; and a watch accepts it inside of the call whose scopes are
open. -/
structure KeepsScopes (before : Reader) (moments : List (Moment ι ε)) (after : Reader) : Prop where
  /-- The options never change. -/
  options_eq : after.options = before.options
  /-- The scopes are the same, unless they were dropped. -/
  scopes_eq : after.scopes = if Moment.anyDrops moments then [] else before.scopes
  /-- The watch accepts. -/
  watched (call : OpenCall) (inside : call.inside = before.scopes) :
    Watched call before moments after

namespace KeepsScopes

variable {before between after : Reader}

/-- A stretch that keeps the scopes never exceeds the bound on them. -/
theorem depth_le {moments : List (Moment ι ε)} (h : KeepsScopes before moments after)
    (hdepth : before.depth ≤ before.options.maxDepth) : after.depth ≤ after.options.maxDepth :=
  (h.watched ⟨before.scopes, before.scopes⟩ rfl).depth_le hdepth

/-- A call inside of which a stretch happened has its scopes open at the end:
`(call.through moments).inside = after.scopes`. -/
theorem inside_through {moments : List (Moment ι ε)} (h : KeepsScopes before moments after)
    {call : OpenCall} (hinside : call.inside = before.scopes) :
    (call.through moments).inside = after.scopes := by
  rw [OpenCall.through, h.scopes_eq]
  split
  · rfl
  · exact hinside

/-- **One stretch after another keeps the scopes**: what is dropped in the first stays dropped in
the second. -/
theorem append {first second : List (Moment ι ε)} (h₁ : KeepsScopes before first between)
    (h₂ : KeepsScopes between second after) : KeepsScopes before (first ++ second) after := by
  refine ⟨h₂.options_eq.trans h₁.options_eq, ?_, ?_⟩
  · rw [h₂.scopes_eq, h₁.scopes_eq, Moment.anyDrops_append]
    cases Moment.anyDrops first <;> cases Moment.anyDrops second <;> rfl
  · intro call hinside
    exact (h₁.watched call hinside).append (h₂.watched _ (h₁.inside_through hinside))

end KeepsScopes

/-! ## Quiet moments -/

/-- Whether a record says that a scope was entered or left: `.enterScope` or `.leaveScope`. -/
def LogRecord.isOfScope : LogRecord → Bool
  | .enterScope .. | .leaveScope .. => true
  | _ => false

/-- Whether an event has nothing to do with scopes. -/
def Event.isQuiet : Event ι ε → Bool
  | .log record => !record.isOfScope
  | .remark _ | .body .. | .skip .. | .close .. | .visited .. => true
  | _ => false

/-- A moment is **quiet** in the scopes of a reader when they stay as they are, and its event is one
of those that have nothing to do with scopes. -/
structure Moment.IsQuiet (reader : Reader) (moment : Moment ι ε) : Prop where
  /-- The event has nothing to do with scopes. -/
  event_isQuiet : moment.event.isQuiet = true
  /-- The scopes are those of the reader. -/
  scopes_eq : moment.reader.scopes = reader.scopes
  /-- The options are those of the reader. -/
  options_eq : moment.reader.options = reader.options

namespace Moment.IsQuiet

variable {reader : Reader} {moment : Moment ι ε}

/-- A quiet moment drops no scopes. -/
theorem dropsScopes_eq (h : moment.IsQuiet reader) : moment.dropsScopes = false := by
  have hquiet := h.event_isQuiet
  unfold dropsScopes
  unfold Event.isQuiet at hquiet
  split
  · rename_i hevent
    rw [hevent] at hquiet
    cases hquiet
  · rename_i hevent
    rw [hevent] at hquiet
    cases hquiet
  · rfl

/-- A watch does not change at a quiet moment: neither its `calls` nor its `scopes`. -/
theorem step_eq (h : moment.IsQuiet reader) (calls : List OpenCall) :
    ScopeWatch.step ⟨calls, reader.scopes⟩ moment = ⟨calls, reader.scopes⟩ := by
  obtain ⟨hquiet, hscopes, -⟩ := h
  have hcalls : (ScopeWatch.step ⟨calls, reader.scopes⟩ moment).calls = calls := by
    unfold ScopeWatch.step
    unfold Event.isQuiet at hquiet
    split at hquiet <;> simp_all
  show (⟨(ScopeWatch.step ⟨calls, reader.scopes⟩ moment).calls, moment.reader.scopes⟩ :
    ScopeWatch) = _
  rw [hcalls, hscopes]

/-- A watch allows a quiet moment. -/
theorem allows (h : moment.IsQuiet reader) (hdepth : reader.depth ≤ reader.options.maxDepth)
    (calls : List OpenCall) : ScopeWatch.Allows ⟨calls, reader.scopes⟩ moment := by
  obtain ⟨hquiet, hscopes, hoptions⟩ := h
  refine ⟨?_, ?_⟩
  · rw [Reader.depth, hscopes, hoptions]
    exact hdepth
  · unfold Event.isQuiet at hquiet
    split at hquiet
    · rename_i record hevent
      rw [hevent]
      -- only the records about scopes are looked at
      cases record with
      | enterScope | leaveScope => cases hquiet
      | _ => exact hscopes
    all_goals simp_all

end Moment.IsQuiet

/-- A quiet stretch drops no scopes. -/
theorem Moment.anyDrops_of_quiet {reader : Reader} {moments : List (Moment ι ε)}
    (hquiet : ∀ moment ∈ moments, moment.IsQuiet reader) : anyDrops moments = false := by
  rw [anyDrops, List.any_eq_false]
  exact fun moment hm => by simp [(hquiet moment hm).dropsScopes_eq]

/-- **A quiet stretch is watched** inside of any call, by induction on the moments: the watch stays
as it is at each of them. -/
theorem Watched.of_quiet {before after : Reader} {moments : List (Moment ι ε)}
    (hquiet : ∀ moment ∈ moments, moment.IsQuiet before) (hscopes : after.scopes = before.scopes)
    (hoptions : after.options = before.options) (call : OpenCall) :
    Watched call before moments after := by
  have hkeep := Moment.anyDrops_of_quiet hquiet
  -- following and accepting are two inductions, as a watch may follow what it does not accept
  have hfollow : ∀ calls : List OpenCall, ScopeWatch.follow ⟨calls, before.scopes⟩ moments =
      ⟨calls, before.scopes⟩ := by
    intro calls
    clear hkeep
    induction moments with
    | nil => rfl
    | cons moment moments ih =>
      rw [ScopeWatch.follow_cons, (hquiet moment List.mem_cons_self).step_eq]
      exact ih fun other hm => hquiet other (List.mem_cons_of_mem _ hm)
  have haccepts : ∀ calls : List OpenCall, before.depth ≤ before.options.maxDepth →
      ScopeWatch.Accepts ⟨calls, before.scopes⟩ moments := by
    intro calls hdepth
    clear hkeep hfollow
    induction moments with
    | nil => trivial
    | cons moment moments ih =>
      have hmoment := hquiet moment List.mem_cons_self
      rw [ScopeWatch.accepts_cons, hmoment.step_eq]
      exact ⟨hmoment.allows hdepth calls,
        ih fun other hm => hquiet other (List.mem_cons_of_mem _ hm)⟩
  refine ⟨?_, fun outer => haccepts _, ?_⟩
  · intro hdepth
    rwa [Reader.depth, hscopes, hoptions]
  · intro outer
    rw [hfollow, OpenCall.map_through_of_keep hkeep, hscopes]

/-- **A quiet stretch keeps the scopes**, and none of them is dropped in it. -/
theorem KeepsScopes.of_quiet {before after : Reader} {moments : List (Moment ι ε)}
    (hquiet : ∀ moment ∈ moments, moment.IsQuiet before) (hscopes : after.scopes = before.scopes)
    (hoptions : after.options = before.options) : KeepsScopes before moments after := by
  refine ⟨hoptions, ?_, fun call _ => .of_quiet hquiet hscopes hoptions call⟩
  rw [hscopes, Moment.anyDrops_of_quiet hquiet]
  rfl

/-! ## Steps that keep the scopes -/

namespace Reader

/-- A body is read in the same scopes. -/
@[simp] theorem scopes_readBody (reader : Reader) (node : Node) :
    (reader.readBody node).1.scopes = reader.scopes := by
  unfold readBody
  split
  · rfl
  · dsimp only
    split <;> rfl

/-- A body is read with the same options. -/
@[simp] theorem options_readBody (reader : Reader) (node : Node) :
    (reader.readBody node).1.options = reader.options := by
  unfold readBody
  split
  · rfl
  · dsimp only
    split <;> rfl

/-- No record of a body that is read is of a scope. -/
theorem isOfScope_of_mem_readBody {reader : Reader} {node : Node} {record : LogRecord}
    (h : record ∈ (reader.readBody node).2.log) : record.isOfScope = false := by
  unfold readBody at h
  split at h
  · cases h
  · dsimp only at h
    split at h
    · unfold closingTagLog at h
      split at h
      · rw [List.mem_singleton.mp h]
        rfl
      · cases h
    · cases h

/-- No record of a node that is opened is of a scope. -/
theorem isOfScope_of_mem_openNode {reader : Reader} {tag : Tag} {record : LogRecord}
    (h : record ∈ (reader.openNode tag).2.log) : record.isOfScope = false := by
  simp only [openNode, Declaration.decode] at h
  split at h
  · cases h
  · split at h
    · cases h
    · rw [List.mem_singleton.mp h]
      rfl
    · cases h

end Reader

/-- No record of a prolog that is skipped is of a scope. -/
theorem Cursor.isOfScope_of_mem_skipProlog {cursor : Cursor} {record : LogRecord}
    (h : record ∈ cursor.skipProlog.2.log) : record.isOfScope = false := by
  fun_induction skipProlog cursor with
  | case1 => cases h
  | case2 => cases h
  | case3 cursor _ tag _ _ stopped skipped hskip ih =>
    rcases List.mem_cons.mp h with rfl | h
    · rfl
    · rw [hskip] at ih
      exact ih h
  | case4 => cases h

/-- Logged moments are quiet when no record is of a scope. -/
theorem Moment.isQuiet_of_mem_logs {level : Nat} {reader shown : Reader} {records : List LogRecord}
    {moment : Moment ι ε} (h : moment ∈ Moment.logs level shown records)
    (hrecords : ∀ record ∈ records, record.isOfScope = false)
    (hscopes : shown.scopes = reader.scopes) (hoptions : shown.options = reader.options) :
    moment.IsQuiet reader := by
  obtain ⟨record, hm, rfl⟩ := List.mem_map.mp h
  exact ⟨by simp [Event.isQuiet, hrecords record hm], hscopes, hoptions⟩

/-! ## Scopes that are entered and left -/

namespace Reader

/-- The record of a scope that is left says so. -/
theorem exists_leaveScope (reader : Reader) :
    ∃ element depth, reader.leaveScope.2 = .leaveScope element depth := by
  unfold leaveScope
  split
  · exact ⟨_, _, rfl⟩
  · exact ⟨_, _, rfl⟩

end Reader

namespace Watched

/-- **A call enters its scope** when there is room for it: the record finds what the call is to
leave, and puts `Scope.of element` on top. -/
theorem enter {reader : Reader} (level : Nat) (element : Option Node) (depth : Nat)
    (room : reader.depth < reader.options.maxDepth) :
    Watched (.onto element reader.scopes) reader
      [(⟨level, reader.pushScope element, .log (.enterScope (Scope.of element).element depth)⟩ :
        Moment ι ε)]
      (reader.pushScope element) := by
  have hdepth : (reader.pushScope element).depth ≤ (reader.pushScope element).options.maxDepth :=
    room
  refine ⟨fun _ => hdepth, fun outer _ => ⟨⟨hdepth, ?_⟩, trivial⟩, ?_⟩
  · exact ⟨_, _, rfl, rfl, rfl⟩
  · intro outer
    rw [OpenCall.map_through_of_keep rfl]
    rfl

/-- **A call leaves its scope**, or nothing when its scope has been dropped: from `call.inside` to
`call.left`. -/
theorem leave {reader : Reader} (level : Nat) {call : OpenCall}
    (inside : reader.scopes = call.inside) (left : reader.leaveScope.1.scopes = call.left) :
    Watched call reader [(⟨level, reader.leaveScope.1, .log reader.leaveScope.2⟩ : Moment ι ε)]
      reader.leaveScope.1 := by
  obtain ⟨element, depth, hrecord⟩ := reader.exists_leaveScope
  rw [hrecord]
  have hdepth : reader.depth ≤ reader.options.maxDepth →
      reader.leaveScope.1.depth ≤ reader.leaveScope.1.options.maxDepth := by
    intro h
    rw [Reader.depth, reader.scopes_leaveScope, reader.options_leaveScope, List.length_tail]
    exact Nat.le_trans (Nat.sub_le _ _) h
  refine ⟨hdepth, fun outer h => ⟨⟨hdepth h, ?_⟩, trivial⟩, ?_⟩
  · exact ⟨_, _, rfl, inside, left⟩
  · intro outer
    rw [OpenCall.map_through_of_keep rfl]
    rfl

end Watched

/-- What work in a scope does to the scopes, seen from the call that it belongs to: it begins with
what the call found, before the scope is entered, and ends with what it leaves. -/
structure KeepsScopesOver (element : Option Node) (before : Reader) (moments : List (Moment ι ε))
    (after : Reader) : Prop where
  /-- The options never change. -/
  options_eq : after.options = before.options
  /-- The scopes are the same, unless they were dropped. -/
  scopes_eq : after.scopes = if Moment.anyDrops moments then [] else before.scopes
  /-- The watch accepts. -/
  watched : Watched (.onto element before.scopes) before moments after

namespace KeepsScopesOver

variable {element : Option Node} {before after : Reader} {moments : List (Moment ι ε)}

/-- The call's scope is left when the work has ended: `left` of the call after the stretch is what
`after` has open. -/
theorem left_through (h : KeepsScopesOver element before moments after) :
    ((OpenCall.onto element before.scopes).through moments).left = after.scopes := by
  rw [OpenCall.through, h.scopes_eq]
  split <;> rfl

/-- **Work in a scope keeps the scopes** when the work inside does. Without room for the scope there
is no such work; otherwise one record enters it and one leaves it, whether the work ends well or
fails. -/
theorem of_scoped {level : Nat} {result : Except Fault Unit}
    (h : Course.Scoped KeepsScopes level element before moments after result) :
    KeepsScopesOver element before moments after := by
  cases h with
  | refused full =>
    refine ⟨rfl, rfl, ⟨fun h => h, fun outer h => ⟨⟨h, rfl⟩, trivial⟩, ?_⟩⟩
    intro outer
    rw [OpenCall.map_through_of_keep rfl]
    rfl
  | @entered inner worked _ room work =>
    -- a reset inside has dropped the scope already, and then leaving takes none off
    have hleft : worked.leaveScope.1.scopes =
        ((OpenCall.onto element before.scopes).through inner).left := by
      rw [Reader.scopes_leaveScope, work.scopes_eq, OpenCall.through]
      split <;> rfl
    have hinside : ((OpenCall.onto element before.scopes).through inner).inside = worked.scopes :=
      work.inside_through rfl
    have hleave := Watched.leave (ι := ι) (ε := ε) level hinside.symm hleft
    have hdrops : Moment.anyDrops (⟨level, worked.leaveScope.1, .log worked.leaveScope.2⟩ ::
        ([] : List (Moment ι ε))) = false := by
      obtain ⟨name, depth, hrecord⟩ := worked.exists_leaveScope
      rw [hrecord]
      rfl
    refine ⟨?_, ?_, ?_⟩
    · rw [Reader.options_leaveScope, work.options_eq]
      rfl
    · rw [hleft, OpenCall.through, Moment.anyDrops_cons, Moment.anyDrops_append, hdrops,
        Bool.or_false]
      show OpenCall.left _ = if Moment.anyDrops inner = true then [] else before.scopes
      split <;> rfl
    · exact (Watched.enter level element before.depth room).append
        ((work.watched (.onto element before.scopes) rfl).append hleave)

/-- A quiet stretch is work that opens no scope. -/
theorem of_quiet (hquiet : ∀ moment ∈ moments, moment.IsQuiet before)
    (hscopes : after.scopes = before.scopes) (hoptions : after.options = before.options) :
    KeepsScopesOver element before moments after := by
  refine ⟨hoptions, ?_, .of_quiet hquiet hscopes hoptions _⟩
  rw [hscopes, Moment.anyDrops_of_quiet hquiet]
  rfl

/-- A quiet stretch may come before the work in a scope. -/
theorem append_quiet {between : Reader} {quiet : List (Moment ι ε)}
    (hquiet : ∀ moment ∈ quiet, moment.IsQuiet before) (hscopes : between.scopes = before.scopes)
    (hoptions : between.options = before.options)
    (h : KeepsScopesOver element between moments after) :
    KeepsScopesOver element before (quiet ++ moments) after := by
  have hkeep := Moment.anyDrops_of_quiet hquiet
  refine ⟨h.options_eq.trans hoptions, ?_, ?_⟩
  · rw [Moment.anyDrops_append, hkeep, h.scopes_eq, hscopes, Bool.false_or]
  · refine (Watched.of_quiet hquiet hscopes hoptions _).append ?_
    rw [OpenCall.through, if_neg (by simp [hkeep]), ← hscopes]
    exact h.watched

/-- **The work of a parse keeps the scopes** when the work inside does; its own scope is that of the
document, `none`. -/
theorem of_rooted {level : Nat} {result : Except Fault Unit}
    (h : Course.Rooted KeepsScopes level before moments after result) :
    KeepsScopesOver none before moments after := by
  have hscopes : (Course.behindProlog before).scopes = before.scopes := rfl
  have hoptions : (Course.behindProlog before).options = before.options := rfl
  -- nothing that the prolog logs is about scopes
  have hskipped : ∀ moment ∈ (Moment.logs level (Course.behindProlog before)
      before.cursor.skipProlog.2.log : List (Moment ι ε)), moment.IsQuiet before :=
    fun moment hm => Moment.isQuiet_of_mem_logs hm
      (fun record hr => Cursor.isOfScope_of_mem_skipProlog hr) hscopes hoptions
  cases h with
  | broken => exact of_quiet hskipped hscopes hoptions
  | empty =>
    refine of_quiet ?_ hscopes hoptions
    intro moment hm
    refine Moment.isQuiet_of_mem_logs hm ?_ hscopes hoptions
    intro record hr
    rcases List.mem_append.mp hr with hr | hr
    · exact Cursor.isOfScope_of_mem_skipProlog hr
    · rw [List.mem_singleton.mp hr]
      rfl
  | element _ _ work => exact append_quiet hskipped hscopes hoptions (of_scoped work)

end KeepsScopesOver

namespace KeepsScopes

variable {reader after : Reader} {inner : List (Moment ι ε)}

/-- **A descent keeps the scopes** when its work does: the watch has one call more between
`.descend` and `.descended`. -/
theorem descend (level : Nat) {parent : Node} {result : Except Fault Unit} (visitor : ι)
    (h : KeepsScopesOver (some parent) reader inner after) :
    KeepsScopes reader
      (⟨level, reader, .descend parent visitor⟩ ::
        (inner ++ [⟨level, after, .descended parent result⟩]))
      after := by
  have hdrops : Moment.anyDrops (⟨level, reader, .descend parent visitor⟩ ::
      (inner ++ [⟨level, after, .descended parent result⟩])) = Moment.anyDrops inner := by
    rw [Moment.anyDrops_cons, Moment.anyDrops_append]
    simp [Moment.dropsScopes]
  refine ⟨h.options_eq, by rw [hdrops, h.scopes_eq], fun call _ =>
    ⟨h.watched.depth_le, fun outer hdepth => ⟨⟨hdepth, rfl⟩, ?_⟩, ?_⟩⟩
  · -- inside, the descent is the innermost of the open calls
    show ScopeWatch.Accepts ⟨.onto (some parent) reader.scopes :: call :: outer, reader.scopes⟩ _
    rw [ScopeWatch.accepts_append, h.watched.follow_eq]
    refine ⟨h.watched.accepts _ hdepth, ⟨h.watched.depth_le hdepth, ?_⟩, trivial⟩
    exact ⟨_, _, rfl, h.left_through.symm, h.left_through.symm⟩
  · intro outer
    show ScopeWatch.follow ⟨.onto (some parent) reader.scopes :: call :: outer, reader.scopes⟩ _ = _
    have hthrough : OpenCall.through (⟨level, reader, .descend parent visitor⟩ ::
        (inner ++ [⟨level, after, .descended parent result⟩])) = OpenCall.through inner :=
      funext fun call => by rw [OpenCall.through, OpenCall.through, hdrops]
    rw [ScopeWatch.follow_append, h.watched.follow_eq, hthrough]
    rfl

/-- **A parse keeps no scopes** but those that its work keeps: `.parse` drops those of every call
around it. -/
theorem parse (level : Nat) {result : Except Fault Unit} (visitor : ι)
    (h : KeepsScopesOver none reader.dropScopes inner after) :
    KeepsScopes reader
      (⟨level, reader.dropScopes, .parse visitor⟩ ::
        (inner ++ [⟨level, after, .parsed result⟩]))
      after := by
  have hscopes : after.scopes = [] := by
    rw [h.scopes_eq]
    split <;> rfl
  have hdepth : after.depth ≤ after.options.maxDepth := by
    rw [Reader.depth, hscopes]
    exact Nat.zero_le _
  refine ⟨h.options_eq, hscopes, fun call _ =>
    ⟨fun _ => hdepth, fun outer _ => ⟨⟨Nat.zero_le _, rfl⟩, ?_⟩, ?_⟩⟩
  · -- inside, the parse is the innermost of the open calls, and all others have lost their scopes
    show ScopeWatch.Accepts
      ⟨.onto none [] :: (call :: outer).map fun _ => .dropped, reader.dropScopes.scopes⟩ _
    rw [ScopeWatch.accepts_append]
    have hfollow := h.watched.follow_eq ((call :: outer).map fun _ => .dropped)
    have haccepts := h.watched.accepts ((call :: outer).map fun _ => .dropped) (Nat.zero_le _)
    refine ⟨haccepts, ?_⟩
    show ScopeWatch.Accepts (ScopeWatch.follow
      ⟨.onto none reader.dropScopes.scopes :: (call :: outer).map fun _ => .dropped,
        reader.dropScopes.scopes⟩ inner) _
    rw [hfollow]
    exact ⟨⟨hdepth, hscopes, hscopes⟩, trivial⟩
  · intro outer
    show ScopeWatch.follow
      ⟨.onto none reader.dropScopes.scopes :: (call :: outer).map fun _ => .dropped,
        reader.dropScopes.scopes⟩ _ = _
    rw [ScopeWatch.follow_append, h.watched.follow_eq]
    show (⟨((call :: outer).map fun _ => .dropped).map (OpenCall.through inner), after.scopes⟩ :
      ScopeWatch) = _
    rw [List.map_map]
    refine congrArg (ScopeWatch.mk · after.scopes) (List.map_congr_left ?_)
    intro call _
    exact OpenCall.through_dropped inner

/-- A reset drops the scopes. -/
theorem reset (level : Nat) (reader : Reader) :
    KeepsScopes reader [(⟨level, reader.reset, .reset⟩ : Moment ι ε)] reader.reset := by
  refine ⟨rfl, rfl, fun call _ => ⟨fun _ => Nat.zero_le _, ?_, ?_⟩⟩
  · intro outer _
    exact ⟨⟨Nat.zero_le _, rfl⟩, trivial⟩
  · intro outer
    rw [OpenCall.map_through_of_drop rfl]
    rfl

/-- A visit happens in the scopes of the call that makes it. -/
theorem visit (level : Nat) (reader : Reader) (visitor : ι) (node : Node) (tag : Tag)
    (soughtFrom : Nat) :
    KeepsScopes reader
      [(⟨level, reader, .visit visitor node tag soughtFrom⟩ : Moment ι ε)] reader := by
  refine ⟨rfl, rfl, fun call hinside => ⟨fun h => h, ?_, ?_⟩⟩
  · intro outer hdepth
    exact ⟨⟨hdepth, _, _, rfl, hinside.symm, hinside.symm⟩, trivial⟩
  · intro outer
    rw [OpenCall.map_through_of_keep rfl]
    rfl

/-- A reported step is quiet when its event and its records are. -/
theorem of_reported (level : Nat) {logged : Logged α} {event : Except Fault α → Event ι ε}
    (hrecords : ∀ record ∈ logged.log, record.isOfScope = false)
    (hevent : (event logged.result).isQuiet = true) (hscopes : after.scopes = reader.scopes)
    (hoptions : after.options = reader.options) :
    KeepsScopes reader (Moment.reported level after logged event) after := by
  refine of_quiet ?_ hscopes hoptions
  intro moment hm
  rcases List.mem_append.mp hm with hm | hm
  · exact Moment.isQuiet_of_mem_logs hm hrecords hscopes hoptions
  · rw [List.mem_singleton.mp hm]
    exact ⟨hevent, hscopes, hoptions⟩

/-- A single quiet event keeps the scopes. -/
theorem of_event (level : Nat) {event : Event ι ε} (hevent : event.isQuiet = true)
    (hscopes : after.scopes = reader.scopes) (hoptions : after.options = reader.options) :
    KeepsScopes reader [⟨level, after, event⟩] after := by
  refine of_quiet ?_ hscopes hoptions
  intro moment hm
  rw [List.mem_singleton.mp hm]
  exact ⟨hevent, hscopes, hoptions⟩

/-- **All work keeps the scopes**: `KeepsScopes` is closed under what a run is made of, so that it
holds of every run. -/
theorem closed : Course.Closed (KeepsScopes : Course ι ε) where
  nil reader := of_quiet (fun _ hm => absurd hm List.not_mem_nil) rfl rfl
  append := append
  remark level reader note := of_event level rfl rfl rfl
  reset := reset
  readBody level reader node := of_reported level
    (fun _ => Reader.isOfScope_of_mem_readBody) rfl (reader.scopes_readBody node)
    (reader.options_readBody node)
  skip level reader node := of_reported level
    (fun _ => Reader.isOfScope_of_mem_readBody) rfl (reader.scopes_readBody node)
    (reader.options_readBody node)
  skipMarkup level _ _ _ _ := of_event level rfl rfl rfl
  close level _ _ _ _ _ := of_event level rfl rfl rfl
  broken level _ _ _ _ _ _ := by
    refine of_quiet ?_ rfl rfl
    intro moment hm
    exact Moment.isQuiet_of_mem_logs hm (fun _ => Reader.isOfScope_of_mem_openNode) rfl rfl
  visit level reader after tag node inner visitor result _ _ _ work := by
    have hopened : KeepsScopes reader (Moment.logs level (reader.passTag tag)
        (reader.openNode tag).2.log : List (Moment ι ε)) (reader.passTag tag) := by
      refine of_quiet ?_ rfl rfl
      intro moment hm
      exact Moment.isQuiet_of_mem_logs hm (fun _ => Reader.isOfScope_of_mem_openNode) rfl rfl
    have hvisit := visit (ε := ε) level (reader.passTag tag) visitor node tag reader.position
    exact hopened.append (hvisit.append (work.append (of_event level rfl rfl rfl)))
  descendEmpty level reader parent visitor _ := by
    -- a childless node opens no scope, but its descent is a call all the same
    have hnone : KeepsScopesOver (some parent) reader ([] : List (Moment ι ε))
        (reader.markClosed parent) :=
      .of_quiet (fun _ hm => absurd hm List.not_mem_nil) rfl rfl
    exact descend level visitor hnone
  descend level _ _ _ _ _ visitor _ work := descend level visitor (.of_scoped work)
  parse level _ _ _ _ visitor work := parse level visitor (.of_rooted work)

end KeepsScopes

/-! ## Whole runs -/

/-- **A parse leaves no scope**, whatever its visitors do: `ended.reader.scopes = []`, with any
result. -/
theorem Session.scopes_of_parse {act : Act ι σ ε}
    (hact : act.Follows (KeepsScopes : Course ι ε)) {visitor : ι} {session ended : Session ι σ ε}
    {result : Except Fault Unit} (hrun : session.parse act visitor = some (ended, result)) :
    ended.reader.scopes = [] := by
  obtain ⟨worked, hroot, rfl⟩ := Session.parse_eq_some hrun
  obtain ⟨-, moments, -, -, hrooted⟩ := hact.rooted hroot
  have hscopes := (KeepsScopesOver.of_rooted
    (hrooted.imp fun _ _ _ => KeepsScopes.closed.of_rootVisiting)).scopes_eq
  rw [Session.reader_record, hscopes]
  split <;> rfl

/-- **The discipline of scopes**, for visitors that do whatever they like. A descent leaves the
scopes as they were, or none when a reset or a parse of the same document happened inside of it,
`Moment.anyDrops (ended.since session)`; reading a body leaves them as they were; a parse leaves
none. And a watch that begins inside of the call around a script,
`ScopeWatch.inside session.reader.scopes`, accepts what the script's run adds to the trace: it
allows every moment, whether the calls in it end well or fail. -/
theorem scopes_of_run (cast : Cast ι σ ε) (calls fuel : Nat) (session : Session ι σ ε)
    (hdepth : session.reader.depth ≤ session.reader.options.maxDepth) :
    (∀ parent visitor ended result,
        session.descend (perform cast calls) fuel parent visitor = some (ended, result) →
          ended.reader.scopes =
            if Moment.anyDrops (ended.since session) then [] else session.reader.scopes) ∧
      (∀ node, (session.readBody node).1.reader.scopes = session.reader.scopes) ∧
      (∀ visitor ended result,
        session.parse (perform cast calls) visitor = some (ended, result) →
          ended.reader.scopes = []) ∧
      ∀ (α : Type) (script : Script ι σ ε α) ended value,
        script.run (perform cast calls) fuel session = some (ended, value) →
          (ScopeWatch.inside session.reader.scopes).Accepts (ended.since session) := by
  have hcomposed : Course.Composed (KeepsScopes : Course ι ε) := KeepsScopes.closed.composed
  have hact := hcomposed.follows_perform cast calls
  refine ⟨?_, ?_, ?_, ?_⟩
  · intro parent visitor ended result hrun
    exact (hcomposed.follows_descend hact hrun).since.scopes_eq
  · intro node
    rw [Session.reader_readBody, Reader.scopes_readBody]
  · intro visitor ended result hrun
    exact Session.scopes_of_parse hact hrun
  · intro α script ended value hrun
    -- a watch that begins inside of the call accepts the run from there
    have hkeeps := (hcomposed.follows_run hact hrun).since
    exact (hkeeps.watched ⟨session.reader.scopes, session.reader.scopes⟩ rfl).accepts [] hdepth

/-- Visitors that send the reader back and stop, or that do nothing. -/
def sendBackIf : Cast Bool Unit Empty := fun sendsBack _ =>
  if sendsBack then .reset (.done (.ok .stop)) else .done (.ok .proceed)

/-- A session in the scope of the document, at the only child `<b/>` of an element `a`. -/
def sessionAtChild : Session Bool Unit Empty :=
  .start ⟨.ofDocument [0x3C, 0x62, 0x2F, 0x3E, 0x3C, 0x2F, 0x61, 0x3E], [.of none], .lenient, none⟩ ()

/-- The descent into `a`, for one of the two visitors. -/
def descentIntoA (sendsBack : Bool) : Outcome Bool Unit Empty (Except Fault Unit) :=
  sessionAtChild.descend (perform sendBackIf 1) 2 ⟨⟨[0x61], .empty, false⟩, 0⟩ sendsBack

/-- Descents into `a` keep the scope of the document, unless the visitor sends the reader back. -/
theorem scopes_of_run_sendBackIf :
    sessionAtChild.reader.depth ≤ sessionAtChild.reader.options.maxDepth ∧
      (∃ ended, descentIntoA false = some (ended, .ok ()) ∧ ended.reader.scopes = [.of none]) ∧
      ∃ ended, descentIntoA true = some (ended, .ok ()) ∧ ended.reader.scopes = [] := by
  have hdepth : sessionAtChild.reader.depth ≤ sessionAtChild.reader.options.maxDepth := by decide
  have hdescent := fun sendsBack =>
    (scopes_of_run sendBackIf 1 2 sessionAtChild hdepth).1 ⟨⟨[0x61], .empty, false⟩, 0⟩ sendsBack
  have hrun : ∀ sendsBack, ∃ ended, descentIntoA sendsBack = some (ended, .ok ()) ∧
      Moment.anyDrops (ended.since sessionAtChild) = sendsBack := by
    intro sendsBack
    cases sendsBack with
    | false => exact ⟨_, rfl, rfl⟩
    | true => exact ⟨_, rfl, rfl⟩
  obtain ⟨kept, hkept, hkeeps⟩ := hrun false
  obtain ⟨dropped, hdropped, hdrops⟩ := hrun true
  refine ⟨hdepth, ⟨kept, hkept, ?_⟩, ⟨dropped, hdropped, ?_⟩⟩
  · rw [hdescent false kept (.ok ()) hkept, hkeeps]
    rfl
  · rw [hdescent true dropped (.ok ()) hdropped, hdrops]
    rfl

end TagWalk
