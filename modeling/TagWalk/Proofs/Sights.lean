import TagWalk.Proofs.Course

/-! # What a session has shown

The visits and the bodies of a session are read off its trace. An event adds one of them or nothing,
and whatever happens, those that are there stay in front. -/

namespace TagWalk

variable {ι σ ε α : Type}

/-- **What always holds** is a closed course, so that every run has its moments behind those that
were there, without a further condition. -/
theorem Course.closed_true : Course.Closed (fun _ _ _ => True : Course ι ε) := by
  constructor <;> intros <;> trivial

namespace Session

/-! ## One event after another -/

theorem ownMoments_record (session : Session ι σ ε) (event : Event ι ε) :
    (session.record event).ownMoments =
      session.ownMoments ++ [⟨session.level, session.reader, event⟩] := by
  rw [ownMoments, trace_record, level_record, List.filter_append, ownMoments]
  simp

theorem ownMoments_log (session : Session ι σ ε) (records : List LogRecord) :
    (session.log records).ownMoments =
      session.ownMoments ++ Moment.logs session.level session.reader records := by
  -- log records are moments of the document that is being read
  have hown : (Moment.logs session.level session.reader records : List (Moment ι ε)).filter
      (·.level == session.level) = Moment.logs session.level session.reader records := by
    rw [List.filter_eq_self]
    intro moment hm
    rw [Moment.level_of_mem_logs hm, beq_iff_eq]
  rw [ownMoments, trace_log, level_log, List.filter_append, hown, ownMoments]

/-- An event shows what its moment shows: `Moment.sight?`, behind what was shown before. -/
theorem sights_record (session : Session ι σ ε) (event : Event ι ε) :
    (session.record event).sights =
      session.sights ++ (Moment.sight? ⟨session.level, session.reader, event⟩).toList := by
  rw [sights, ownMoments_record, List.filterMap_append, sights]
  cases hsight : Moment.sight? ⟨session.level, session.reader, event⟩ with
  | none => simp [hsight]
  | some sight => simp [hsight]

/-- A body is read when its event says so: `Moment.body?`, behind the bodies that were read
before. -/
theorem bodies_record (session : Session ι σ ε) (event : Event ι ε) :
    (session.record event).bodies =
      session.bodies ++ (Moment.body? ⟨session.level, session.reader, event⟩).toList := by
  rw [bodies, ownMoments_record, List.filterMap_append, bodies]
  cases hbody : Moment.body? ⟨session.level, session.reader, event⟩ with
  | none => simp [hbody]
  | some body => simp [hbody]

/-- Logging shows nothing. -/
@[simp] theorem sights_log (session : Session ι σ ε) (records : List LogRecord) :
    (session.log records).sights = session.sights := by
  have hnone : (Moment.logs session.level session.reader records : List (Moment ι ε)).filterMap
      Moment.sight? = [] := by
    rw [List.filterMap_eq_nil_iff]
    intro moment hm
    obtain ⟨record, -, rfl⟩ := List.mem_map.mp hm
    rfl
  rw [sights, ownMoments_log, List.filterMap_append, hnone, List.append_nil, sights]

/-- Logging reads no body. -/
@[simp] theorem bodies_log (session : Session ι σ ε) (records : List LogRecord) :
    (session.log records).bodies = session.bodies := by
  have hnone : (Moment.logs session.level session.reader records : List (Moment ι ε)).filterMap
      Moment.body? = [] := by
    rw [List.filterMap_eq_nil_iff]
    intro moment hm
    obtain ⟨record, -, rfl⟩ := List.mem_map.mp hm
    rfl
  rw [bodies, ownMoments_log, List.filterMap_append, hnone, List.append_nil, bodies]

/-- A step shows nothing before its event. -/
@[simp] theorem sights_step (session : Session ι σ ε) (operation : Reader → Reader × Logged α) :
    (session.step operation).1.sights = session.sights := by
  show (Session.log _ _).sights = session.sights
  rw [sights_log]
  rfl

/-- A step reads no body before its event. -/
@[simp] theorem bodies_step (session : Session ι σ ε) (operation : Reader → Reader × Logged α) :
    (session.step operation).1.bodies = session.bodies := by
  show (Session.log _ _).bodies = session.bodies
  rw [bodies_log]
  rfl

/-! ## Whatever happens -/

section Follows

variable {P : Course ι ε} {before after : Session ι σ ε}

/-- The moments of a session's own document stay in front: `before.ownMoments <+:
after.ownMoments`. -/
theorem Follows.ownMoments_isPrefix (h : before.Follows P after) :
    before.ownMoments <+: after.ownMoments := by
  obtain ⟨hlevel, moments, htrace, -, -⟩ := h
  rw [ownMoments, ownMoments, htrace, hlevel, List.filter_append]
  exact List.prefix_append _ _

/-- **What was shown stays in front**: `before.sights <+: after.sights`. -/
theorem Follows.sights_isPrefix (h : before.Follows P after) : before.sights <+: after.sights :=
  h.ownMoments_isPrefix.filterMap _

/-- **The bodies that were read stay in front**: `before.bodies <+: after.bodies`. -/
theorem Follows.bodies_isPrefix (h : before.Follows P after) : before.bodies <+: after.bodies :=
  h.ownMoments_isPrefix.filterMap _

end Follows

/-- **Behind a visit among the children**, their enumeration only goes on: what the session shows at
its end begins with what it shows behind the visit, whatever the answer was. -/
theorem follows_scanChildren_of_visitTag {P : Course ι ε} (h : P.Closed) {act : Act ι σ ε}
    (hact : act.Follows P) {visitor : ι} {parent : Node} {tag : Tag} {fuel : Nat}
    {session visited ended : Session ι σ ε} {answer : Except Fault (Node × Signal)}
    {result : Except Fault Unit} (hnext : session.reader.cursor.nextTag = .ok tag)
    (hkind : session.reader.cursor.kindOf tag = .element)
    (hvisit : session.visitTag act visitor tag = some (visited, answer))
    (hrun : scanChildren act parent visitor (fuel + 1) session = some (ended, result)) :
    visited.Follows P ended := by
  cases answer with
  | error fault =>
    rw [scanChildren_of_finished (childStep_of_failed hnext hkind hvisit)] at hrun
    cases hrun
    exact .of_nil _ (h.nil _)
  | ok seen =>
    obtain ⟨child, signal⟩ := seen
    -- the node was visited, and what follows a visit follows the course
    have hstep : session.childStep act parent visitor = some (visited.afterVisit child signal) :=
      childStep_of_visited hnext hkind hvisit
    have hskip : visited.Follows P (visited.skip child).1 := follows_skip (h.skip _ _ _)
    have hafter : visited.Follows P (visited.afterVisit child signal).1 := by
      rcases visited.afterVisit_cases child signal with
        ⟨-, heq⟩ | ⟨-, -, heq⟩ | ⟨-, -, ⟨_, -, heq⟩ | ⟨_, -, heq⟩⟩
      · rw [heq]
        exact .of_nil _ (h.nil _)
      · rw [heq]
        exact .of_nil _ (h.nil _)
      · rw [heq]
        exact hskip
      · rw [heq]
        exact hskip
    rcases hprogress : visited.afterVisit child signal with ⟨after, _ | _⟩
    · rw [hprogress] at hafter hstep
      rw [scanChildren_of_more hstep] at hrun
      exact hafter.append (hact.enumerating hrun) fun _ _ hfirst hrest =>
        h.append hfirst (h.of_enumerating hrest)
    · rw [hprogress] at hafter hstep
      rw [scanChildren_of_finished hstep] at hrun
      cases hrun
      exact hafter

end Session

end TagWalk
