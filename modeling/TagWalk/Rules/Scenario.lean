import TagWalk.Rules.Playbook
import TagWalk.Traversal

/-! # Scenarios

A **scenario** sets up one reader for each of several documents and lets them act in turn. The
visitors are those of a playbook, and all readers share its memory, so a node met in one document
can be tried in another. -/

namespace TagWalk

/-- Documents to read, visitors to read them with, and what to do. -/
structure Scenario where
  /-- The documents, each with the options of its reader. -/
  documents : List (Bytes × Options)
  /-- The visitors. -/
  playbook : Playbook
  /-- The actions in order, each with the number of its reader. -/
  steps : List (Nat × Action)

/-- The readers of a scenario, with what they share. -/
structure Stage where
  /-- The readers, one for each document. -/
  readers : List Reader
  /-- What the visitors share. -/
  memory : Memory
  /-- What happened so far. -/
  trace : Array (Moment String Remark)

namespace Stage

/-- New readers for documents. -/
def ofDocuments (documents : List (Bytes × Options)) : Stage :=
  ⟨documents.map fun (document, options) => .ofDocument document options, .empty, #[]⟩

/-- **Let one reader act**, outside of any visit. A failure stays in the trace and ends nothing
else; a number that no reader has does nothing. The memory goes on from reader to reader. -/
def act (stage : Stage) (playbook : Playbook) (fuel number : Nat) (action : Action) :
    Option Stage :=
  match stage.readers[number]? with
  | none => some stage
  | some reader =>
      match (action.script none).play playbook.cast fuel ⟨reader, stage.memory, 0, stage.trace⟩ with
      | none => none
      | some (session, _) =>
          some ⟨stage.readers.set number session.reader, session.state, session.trace⟩

end Stage

/-- **All that happens in a scenario**, step by step, unless the fuel runs out: the trace in the
end. -/
def Scenario.run (scenario : Scenario) (fuel : Nat) : Option (Array (Moment String Remark)) :=
  go scenario.steps (.ofDocuments scenario.documents)
where
  /-- The steps that are left, from a stage on. -/
  go : List (Nat × Action) → Stage → Option (Array (Moment String Remark))
    | [], stage => some stage.trace
    | (number, action) :: steps, stage =>
        match stage.act scenario.playbook fuel number action with
        | none => none
        | some stage => go steps stage

end TagWalk
