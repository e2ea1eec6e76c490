import TagWalk.Proofs.Behind
import TagWalk.Proofs.Sights
import TagWalk.Proofs.Source

/-! # Readers are reusable

Whatever was done with a reader before, and however it ended, nothing of it stays behind: a reset makes
it the reader that it was in the beginning, and a parse drops what was left of the scopes and the mark,
so that only the place in the document is still to be told.

* **`Reader.freshAt`** — a reader that is new, but for its place.
* **`Session.since_behind`** — what happens behind a trace is what happens without it.
* **`Session.reset_eq`**, **`Session.parse_eq`** — a reset, and a parse, of a session with a past.
* **`reusable_of_run`** — readers are reusable after all that visitors may do. -/

namespace TagWalk

variable {ι σ ε α : Type}

/-- A new reader that is moved to some place in its document: no scope is open and no node is
marked, and its cursor is at `min position document.length`. -/
def Reader.freshAt (document : Bytes) (options : Options) (position : Nat) : Reader :=
  { ofDocument document options with cursor := (Cursor.ofDocument document).setPosition position }

/-- **Without its scopes and its mark**, a reader is new but for its place:
`freshAt reader.document reader.options reader.position`. -/
theorem Reader.dropScopes_eq (reader : Reader) :
    reader.dropScopes = freshAt reader.document reader.options reader.position := by
  obtain ⟨⟨document, position, hle⟩, scopes, options, lastClosed⟩ := reader
  simp only [dropScopes, freshAt, ofDocument, Cursor.setPosition, Cursor.ofDocument, Reader.document,
    Reader.position, Nat.min_eq_left hle]

namespace Session

/-- The moments of a session behind a trace: those of `front` on its level, and then its own. -/
theorem ownMoments_behind (front : Array (Moment ι ε)) (session : Session ι σ ε) :
    (session.behind front).ownMoments =
      front.toList.filter (·.level == session.level) ++ session.ownMoments := by
  simp [ownMoments, behind]

/-- **What happens behind a trace** is what happens without it: `(after.behind front).since
(before.behind front) = after.since before`. -/
theorem since_behind (front : Array (Moment ι ε)) {before after : Session ι σ ε}
    (hlevel : after.level = before.level) :
    (after.behind front).since (before.behind front) = after.since before := by
  rw [since, ownMoments_behind, ownMoments_behind, hlevel, List.length_append, List.drop_append,
    List.drop_eq_nil_of_le (Nat.le_add_right _ _), Nat.add_sub_cancel_left]
  rfl

/-- **A session that is reset** is a new one, `start (.ofDocument …) session.state`, behind the
trace that it has with the reset at its end. -/
theorem reset_eq (session : Session ι σ ε) (hlevel : session.level = 0) :
    session.reset = (start (.ofDocument session.reader.document session.reader.options)
      session.state).behind session.reset.trace := by
  obtain ⟨reader, state, level, trace⟩ := session
  obtain rfl : level = 0 := hlevel
  simp [reset, start, behind, record, Reader.reset_eq_ofDocument]

/-- The session that is new but for its place and the visitors' state: its reader is `.freshAt` the
place, and its trace is empty. -/
def renewed (session : Session ι σ ε) : Session ι σ ε :=
  start (.freshAt session.reader.document session.reader.options session.reader.position) session.state

/-- **A session that begins to parse** is a new one behind its trace, but for its place:
`session.renewed.behind session.trace` begins in the same way, since a parse drops the scopes and
the mark first. -/
theorem beginParse_eq (session : Session ι σ ε) (hlevel : session.level = 0) (visitor : ι) :
    session.beginParse visitor = (session.renewed.behind session.trace).beginParse visitor := by
  have hreader : session.renewed.reader.dropScopes = session.reader.dropScopes := by
    rw [session.reader.dropScopes_eq]
    rfl
  have htrace : (session.renewed.behind session.trace).trace = session.trace := Array.append_empty
  unfold beginParse record
  rw [reader_behind, hreader, htrace, hlevel]
  rfl

/-- **A parse** does not tell a session from `session.renewed.behind session.trace`, which is a new
one but for its place. -/
theorem parse_eq (session : Session ι σ ε) (hlevel : session.level = 0) (act : Act ι σ ε)
    (visitor : ι) :
    session.parse act visitor = (session.renewed.behind session.trace).parse act visitor := by
  rw [parse, parse, session.beginParse_eq hlevel]

/-- **Whatever is done after a reset** comes to what it comes to with a new reader,
`Reader.ofDocument`, behind the trace of what was done before: no function looks at the trace. -/
theorem play_reset (session : Session ι σ ε) (hlevel : session.level = 0) (cast : Cast ι σ ε)
    (script : Script ι σ ε α) (fuel : Nat) :
    script.play cast fuel session.reset = Outcome.behind session.reset.trace
      (script.play cast fuel
        (start (.ofDocument session.reader.document session.reader.options) session.state)) :=
  calc script.play cast fuel session.reset
      = script.play cast fuel
          ((start (.ofDocument session.reader.document session.reader.options) session.state).behind
            session.reset.trace) := congrArg _ (session.reset_eq hlevel)
    _ = _ := (Act.mirrors_perform _ cast fuel).run_behind fuel script _

/-- **Whatever begins with a parse** comes to what it comes to with `session.renewed`, whose reader
is new but for its place. -/
theorem play_parse (session : Session ι σ ε) (hlevel : session.level = 0) (cast : Cast ι σ ε)
    (visitor : ι) (next : Except Fault Unit → Script ι σ ε α) (fuel : Nat) :
    (Script.parse visitor next).play cast fuel session = Outcome.behind session.trace
      ((Script.parse visitor next).play cast fuel session.renewed) :=
  calc (Script.parse visitor next).play cast fuel session
      = (Script.parse visitor next).play cast fuel (session.renewed.behind session.trace) := by
        rw [Script.play, Script.play, Script.run, Script.run, session.parse_eq hlevel]
    _ = _ := (Act.mirrors_perform _ cast fuel).run_behind fuel (.parse visitor next) _

end Session

/-- **Readers are reusable**, whatever was done with them by a `history`: parses that succeed, fail
or are stopped, visitors that reset the reader or have it parse again, and reads and descents with
nodes from anywhere. The document and the options are still those of the beginning. After a reset,
whatever is done next comes to what it comes to with a new reader,
`.start (.ofDocument document options) ended.state`. And without one, so does whatever begins with a
parse, with a new reader that is moved to the same place,
`.freshAt document options ended.reader.position`. Both times the trace of the history stands in
front, as `Outcome.behind` says, and nothing else of it. -/
theorem reusable_of_run (cast other : Cast ι σ ε) {fuel : Nat} {document : Bytes} {options : Options}
    {state : σ} {history : Script ι σ ε α} {ended : Session ι σ ε} {value : α}
    (hrun : history.play cast fuel (.start (.ofDocument document options) state) =
      some (ended, value)) :
    ended.reader.document = document ∧ ended.reader.options = options ∧
      (∀ (β : Type) (further : Script ι σ ε β) enough,
        further.play other enough ended.reset = Outcome.behind ended.reset.trace
          (further.play other enough (.start (.ofDocument document options) ended.state))) ∧
      ∀ (β : Type) visitor (next : Except Fault Unit → Script ι σ ε β) enough,
        (Script.parse visitor next).play other enough ended = Outcome.behind ended.trace
          ((Script.parse visitor next).play other enough
            (.start (.freshAt document options ended.reader.position) ended.state)) := by
  have hsource := (Session.source_of_run cast hrun).source_eq
  obtain ⟨hdocument, hoptions⟩ :
      ended.reader.document = document ∧ ended.reader.options = options := Prod.mk.inj hsource
  -- a session that began on the outermost level ends there
  have hlevel : ended.level = 0 := by
    have hcomposed : Course.Composed (fun _ _ _ => True : Course ι ε) := Course.closed_true.composed
    exact (hcomposed.follows_run (hcomposed.follows_perform cast fuel) hrun).1
  refine ⟨hdocument, hoptions, ?_, ?_⟩
  · intro β further enough
    have hreset := ended.play_reset hlevel other further enough
    rwa [hdocument, hoptions] at hreset
  · intro β visitor next enough
    have hparse := ended.play_parse hlevel other visitor next enough
    rwa [Session.renewed, hdocument, hoptions] at hparse

/-- A session at the front of `<a><b></a>`, whose element `a` is not closed. -/
def sessionUnclosed : Session Unit Unit Empty :=
  .start (.ofDocument [0x3C, 0x61, 0x3E, 0x3C, 0x62, 0x3E, 0x3C, 0x2F, 0x61, 0x3E] .lenient) ()

/-- The script that parses the document once. -/
def parseOnce : Script Unit Unit Empty (Except Fault Unit) := .parse () .done

/-- A descent into everything fails at the end of the document, with the mark on `b`. Behind a reset, the
same happens again; without one, the document has no more elements. -/
theorem reusable_of_run_sessionUnclosed :
    ∃ ended, parseOnce.play descendAll 11 sessionUnclosed = some (ended, .error (.missingTagStart 10)) ∧
      ended.reader.lastClosed = some 6 ∧
      (∃ again, parseOnce.play descendAll 11 ended.reset = some (again, .error (.missingTagStart 10)) ∧
        again.reader = ended.reader ∧ again.since ended.reset = ended.ownMoments) ∧
      ∃ again, parseOnce.play descendAll 11 ended = some (again, .ok ()) ∧
        again.reader.position = 10 := by
  have hrun : ∃ ended, parseOnce.play descendAll 11 sessionUnclosed =
        some (ended, .error (.missingTagStart 10)) ∧
      ended.reader.lastClosed = some 6 ∧ ended.reader.position = 10 ∧ ended.level = 0 := by
    exact ⟨_, by with_unfolding_all rfl, by with_unfolding_all rfl, by with_unfolding_all rfl,
      by with_unfolding_all rfl⟩
  obtain ⟨ended, hdone, hmark, hposition, hlevel⟩ := hrun
  obtain ⟨hdocument, hoptions, hreset, hparse⟩ := reusable_of_run descendAll descendAll hdone
  refine ⟨ended, hdone, hmark, ⟨ended.behind ended.reset.trace, ?_, rfl, ?_⟩, ?_⟩
  · exact (hreset _ parseOnce 11).trans (congrArg (Outcome.behind _) hdone)
  · have hfresh : ended.reset = sessionUnclosed.behind ended.reset.trace := by
      have hnew := ended.reset_eq hlevel
      rwa [hdocument, hoptions] at hnew
    calc (ended.behind ended.reset.trace).since ended.reset
        = (ended.behind ended.reset.trace).since (sessionUnclosed.behind ended.reset.trace) :=
          congrArg _ hfresh
      _ = ended.since sessionUnclosed := Session.since_behind _ hlevel
      _ = ended.ownMoments := List.drop_zero
  · have hagain := hparse _ () .done 11
    rw [hposition] at hagain
    have hempty : ∃ again, (Script.parse () .done).play descendAll 11
          (.start (.freshAt sessionUnclosed.reader.document .lenient 10) ended.state) =
        some (again, .ok ()) ∧ again.reader.position = 10 := by
      exact ⟨_, by with_unfolding_all rfl, by with_unfolding_all rfl⟩
    obtain ⟨again, hdone, hplace⟩ := hempty
    exact ⟨again.behind ended.trace, hagain.trans (congrArg (Outcome.behind _) hdone), hplace⟩

end TagWalk
