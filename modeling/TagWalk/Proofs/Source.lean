import TagWalk.Proofs.Progress
import TagWalk.Proofs.Scopes

/-! # The source of a reader

A reader is made for one document, with some options. Whatever happens to it, it stays with both: a
reset returns to the front of the same document, and another document is read by a reader of its own.

* **`KeepsSource`** — the course of work that shows the same document and options at every moment.
* **`Session.source_of_run`** — that is how every run goes. -/

namespace TagWalk

variable {ι σ ε α : Type}

/-- What a reader was made for: its document and its options, which `Reader.reset` keeps. -/
def Reader.source (reader : Reader) : Bytes × Options := (reader.document, reader.options)

/-- Reading a body keeps the source. -/
theorem Reader.source_readBody (reader : Reader) (node : Node) :
    (reader.readBody node).1.source = reader.source :=
  Prod.ext (reader.document_readBody node) (reader.options_readBody node)

/-- **Work on one source**: `Reader.source` is the same at every moment, and behind the last one. -/
structure KeepsSource (before : Reader) (moments : List (Moment ι ε)) (after : Reader) : Prop where
  /-- In the end. -/
  source_eq : after.source = before.source
  /-- At every moment. -/
  everywhere : ∀ moment ∈ moments, moment.reader.source = before.source

namespace KeepsSource

variable {before between after reader : Reader} {first second inner : List (Moment ι ε)}

/-- One stretch after another. -/
theorem append (h₁ : KeepsSource before first between) (h₂ : KeepsSource between second after) :
    KeepsSource before (first ++ second) after := by
  refine ⟨h₂.source_eq.trans h₁.source_eq, fun moment hm => ?_⟩
  rcases List.mem_append.mp hm with hm | hm
  · exact h₁.everywhere moment hm
  · exact (h₂.everywhere moment hm).trans h₁.source_eq

/-- A stretch that shows one reader only. -/
theorem of_still (hsource : after.source = before.source)
    (hstill : ∀ moment ∈ first, moment.reader = after) : KeepsSource before first after :=
  ⟨hsource, fun moment hm => (congrArg Reader.source (hstill moment hm)).trans hsource⟩

/-- A single event. -/
theorem of_event (level : Nat) (event : Event ι ε) (hsource : after.source = before.source) :
    KeepsSource before [⟨level, after, event⟩] after :=
  .of_still hsource fun _ hm => congrArg Moment.reader (List.mem_singleton.mp hm)

/-- Records that are logged. -/
theorem of_logs (level : Nat) (records : List LogRecord) (hsource : after.source = before.source) :
    KeepsSource before (Moment.logs level after records : List (Moment ι ε)) after := by
  refine .of_still hsource fun moment hm => ?_
  obtain ⟨record, -, rfl⟩ := List.mem_map.mp hm
  rfl

/-- A reported step. -/
theorem of_reported (level : Nat) (logged : Logged α) (event : Except Fault α → Event ι ε)
    (hsource : after.source = before.source) :
    KeepsSource before (Moment.reported level after logged event) after :=
  (of_logs level _ hsource).append (of_event level _ rfl)

/-- Work between two events that move the reader nowhere. -/
theorem around (level : Nat) (begun ended : Event ι ε) (h : KeepsSource before inner after) :
    KeepsSource before (⟨level, before, begun⟩ :: (inner ++ [⟨level, after, ended⟩])) after :=
  (of_event level begun rfl).append (h.append (of_event level ended rfl))

/-- Work in a scope. -/
theorem of_scoped {level : Nat} {element : Option Node} {result : Except Fault Unit}
    (h : Course.Scoped KeepsSource level element before inner after result) :
    KeepsSource before inner after := by
  cases h with
  | refused full => exact of_event level _ rfl
  | @entered inner worked _ room work =>
    have henter : KeepsSource before [(⟨level, before.pushScope element,
        .log (.enterScope (Scope.of element).element before.depth)⟩ : Moment ι ε)]
        (before.pushScope element) := of_event level _ rfl
    have hleave : worked.leaveScope.1.source = worked.source :=
      Prod.ext (congrArg Cursor.document worked.cursor_leaveScope) worked.options_leaveScope
    exact henter.append (work.append (of_event level _ hleave))

/-- The work of a parse. -/
theorem of_rooted {level : Nat} {result : Except Fault Unit}
    (h : Course.Rooted KeepsSource level before inner after result) :
    KeepsSource before inner after := by
  have hsource : (Course.behindProlog before).source = before.source :=
    Prod.ext before.cursor.document_skipProlog rfl
  cases h with
  | broken => exact of_logs level _ hsource
  | empty => exact of_logs level _ hsource
  | element _ _ work => exact (of_logs level _ hsource).append (of_scoped work)

/-- **All work stays with its source**: `KeepsSource` is closed under what a run is made of, so that
it holds of every run. -/
theorem closed : Course.Closed (KeepsSource : Course ι ε) where
  nil reader := ⟨rfl, fun _ hm => absurd hm List.not_mem_nil⟩
  append := append
  remark level reader note := of_event level _ rfl
  reset level reader := of_event level _ rfl
  readBody level reader node := of_reported level _ _ (reader.source_readBody node)
  skip level reader node := of_reported level _ _ (reader.source_readBody node)
  skipMarkup level _ _ _ _ := of_event level _ rfl
  close level _ _ _ _ _ := of_event level _ rfl
  broken level _ _ _ _ _ _ := of_logs level _ rfl
  visit level _ _ _ _ _ _ _ _ _ _ work := append (of_logs level _ rfl) (around level _ _ work)
  descendEmpty level _ _ _ _ := (of_event level _ rfl).append (of_event level _ rfl)
  descend level _ _ _ _ _ _ _ work := around level _ _ (of_scoped work)
  parse level reader after inner result visitor work := by
    have hparse : KeepsSource reader [(⟨level, reader.dropScopes, .parse visitor⟩ : Moment ι ε)]
        reader.dropScopes := of_event level _ rfl
    exact hparse.append ((of_rooted work).append (of_event level _ rfl))

end KeepsSource

/-- **A session stays with its source**, whatever its visitors do: the document and the options are
the same at every moment of a run, and behind it, `ended.reader.source = session.reader.source`. -/
theorem Session.source_of_run (cast : Cast ι σ ε) {calls fuel : Nat} {script : Script ι σ ε α}
    {session ended : Session ι σ ε} {value : α}
    (hrun : script.run (perform cast calls) fuel session = some (ended, value)) :
    KeepsSource session.reader (ended.since session) ended.reader := by
  have hcomposed : Course.Composed (KeepsSource : Course ι ε) := KeepsSource.closed.composed
  exact (hcomposed.follows_run (hcomposed.follows_perform cast calls) hrun).since

end TagWalk
