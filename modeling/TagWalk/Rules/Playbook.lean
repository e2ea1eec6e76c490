import TagWalk.Rules.Action

/-! # Playbooks

A **rule** says when it applies to a visit and what is then done. A **playbook** gives each visitor a
list of rules: at every visit the first rule that applies is followed, and a visit to which none
applies does nothing. -/

namespace TagWalk

/-- A condition on a visit. -/
inductive Condition
  /-- The node has this name. -/
  | named (name : Bytes)
  /-- The node has an attribute of this name. -/
  | hasAttribute (name : Bytes)
  /-- The node closes itself, or does not. -/
  | selfClosing (expected : Bool)
  /-- This many scopes are open. -/
  | depth (expected : Nat)
  /-- The visitor was called this often before. -/
  | nth (expected : Nat)
  /-- The visitor was called less often before. -/
  | nthBelow (bound : Nat)
  deriving DecidableEq

/-- Whether a condition holds of a visit of `node` with `depth` scopes open, after `nth` calls of
its visitor. -/
def Condition.holds (node : Node) (depth nth : Nat) : Condition → Bool
  | .named name => node.name == name
  | .hasAttribute name => (node.attribute? name).isSome
  | .selfClosing expected => node.selfClosing == expected
  | .depth expected => depth == expected
  | .nth expected => nth == expected
  | .nthBelow bound => decide (nth < bound)

/-- What to do at the visits that meet some conditions, and what to answer. -/
structure Rule where
  /-- The conditions, all of which have to hold. -/
  conditions : List Condition
  /-- The actions. -/
  actions : List Action
  /-- The answer, when no action fails. -/
  signal : Signal

/-- Whether a rule applies to a visit: all of its conditions hold. -/
def Rule.applies (rule : Rule) (node : Node) (depth nth : Nat) : Bool :=
  rule.conditions.all (·.holds node depth nth)

/-- The rules of each visitor. -/
abbrev Playbook := List (String × List Rule)

namespace Playbook

/-- The rules of a visitor. -/
def rulesOf (playbook : Playbook) (visitor : String) : List Rule :=
  (playbook.lookup visitor).getD []

/-- **What a visitor does with a node.** The call is counted and remarked, and the first rule that
applies is followed; conditions are judged before any action. Without such a rule the answer is
`.proceed`. -/
def cast (playbook : Playbook) : Cast String Memory Remark := fun visitor node =>
  .get fun memory =>
    let nth := memory.callsOf visitor
    .set (memory.countCall visitor) <| .remark (.called visitor nth node) <| .inspect fun reader =>
      match (playbook.rulesOf visitor).find? (·.applies node reader.depth nth) with
      | none => .done (.ok .proceed)
      | some rule =>
          (Action.scriptAll (some node) rule.actions).bind fun
            | .ok () => .done (.ok rule.signal)
            | .error fault => .done (.error fault)

end Playbook

end TagWalk
