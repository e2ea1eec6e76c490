import TagWalk.Script

/-! # Actions

The single things that a rule-driven visitor does with a node or with the reader. An **action** works
on the node being visited or on a node kept in a register, and remarks on its outcome in the trace
when it has finished, behind all that it caused.

`Action.script` says what an action asks of the reader. -/

namespace TagWalk

/-- The node that an action works on. -/
inductive Target
  /-- The node being visited. -/
  | here
  /-- The node kept in a register. -/
  | saved (register : String)
  deriving DecidableEq

/-- One thing to do with the node being visited, with a node kept before, or with the reader. -/
inductive Action
  /-- Read a node's body. -/
  | readBody (target : Target)
  /-- Have a node's children visited. -/
  | descend (target : Target) (visitor : String)
  /-- Read a node's body and parse it as a document of its own. -/
  | parseBody (target : Target) (visitor : String)
  /-- Look an attribute of a node up. -/
  | lookUp (target : Target) (name : Bytes)
  /-- Keep the node being visited in a register. -/
  | save (register : String)
  /-- Compare the nodes in two registers. -/
  | same (left right : String)
  /-- Look at the reader. -/
  | state
  /-- Return to the front of the document. -/
  | reset
  /-- Parse from where the reader stands. -/
  | parse (visitor : String)
  /-- Parse the whole document with a reader of its own. -/
  | parseAfresh (visitor : String)
  /-- Fail. -/
  | fail (fault : Fault)
  /-- Do actions up to the first that fails, and forget the failure. -/
  | attempt (actions : List Action)

/-- How an action came out. -/
inductive Reply
  /-- The register was empty. -/
  | missing
  /-- The action succeeded. -/
  | done
  /-- The action failed. -/
  | failed (fault : Fault)
  /-- A body was read. -/
  | body (body : Bytes)
  /-- An attribute's value, if there is one, and its text, if it is text. -/
  | value (value : Option Bytes) (text : Option String)
  /-- Whether two registers hold the same. -/
  | same (equal : Bool)
  /-- The reader was looked at: it is the one of the moment. -/
  | state
  deriving DecidableEq

/-- What a rule-driven visitor remarks. -/
inductive Remark
  /-- A visitor is called for the `nth` time, from 0, and gets a node. -/
  | called (visitor : String) (nth : Nat) (node : Node)
  /-- An action has finished. -/
  | acted (action : Action) (reply : Reply)

/-- What rule-driven visitors share: the registers, and how often each visitor was called. Both are
kept for a whole scenario. -/
structure Memory where
  /-- The registers that are not empty. -/
  registers : List (String × Node)
  /-- The visitors that were called, with the number of calls. -/
  calls : List (String × Nat)
  deriving DecidableEq

namespace Memory

/-- Empty registers, and no call so far. -/
def empty : Memory := ⟨[], []⟩

/-- The node in a register. -/
def node? (memory : Memory) (register : String) : Option Node := memory.registers.lookup register

/-- Keep a node in a register, in place of what it held. -/
def save (memory : Memory) (register : String) (node : Node) : Memory :=
  { memory with registers := (register, node) :: memory.registers.filter (·.1 != register) }

/-- How often a visitor was called, `0` for one that never was. -/
def callsOf (memory : Memory) (visitor : String) : Nat := (memory.calls.lookup visitor).getD 0

/-- Count one more call of a visitor. -/
def countCall (memory : Memory) (visitor : String) : Memory :=
  { memory with
    calls := (visitor, memory.callsOf visitor + 1) :: memory.calls.filter (·.1 != visitor) }

/-- The node that a target stands for, with `here` being visited. -/
def resolve (memory : Memory) (here : Option Node) : Target → Option Node
  | .here => here
  | .saved register => memory.node? register

end Memory

/-- The scripts of rule-driven visitors. -/
abbrev RuleScript (α : Type) := Script String Memory Remark α

namespace Action

/-- Finish an action with a reply: `.acted action reply` is remarked, behind all that the action
caused. -/
def conclude (action : Action) (reply : Reply) (result : Except Fault Unit) :
    RuleScript (Except Fault Unit) :=
  .remark (.acted action reply) (.done result)

/-- Finish an action that has no reply but its success: `.done`, or `.failed fault` with the fault
passed on. -/
def report (action : Action) : Except Fault Unit → RuleScript (Except Fault Unit)
  | .ok () => action.conclude .done (.ok ())
  | .error fault => action.conclude (.failed fault) (.error fault)

/-- Work on the node that a target stands for. An empty register is no failure: the reply is
`.missing`. -/
def onTarget (here : Option Node) (action : Action) (target : Target)
    (work : Node → RuleScript (Except Fault Unit)) : RuleScript (Except Fault Unit) :=
  .get fun memory =>
    match memory.resolve here target with
    | none => action.conclude .missing (.ok ())
    | some node => work node

mutual

/-- **What an action asks of the reader**, with the node `here` being visited. At the top of a
scenario there is none, and then `.here` is missing too. -/
def script (here : Option Node) : Action → RuleScript (Except Fault Unit)
  | readBody target =>
      onTarget here (readBody target) target fun node => .readBody node fun
        | .ok body => (readBody target).conclude (.body body) (.ok ())
        | .error fault => (readBody target).report (.error fault)
  | descend target visitor =>
      onTarget here (descend target visitor) target fun node =>
        .descend node visitor (descend target visitor).report
  | parseBody target visitor =>
      onTarget here (parseBody target visitor) target fun node => .readBody node fun
        | .ok body => .parseOther body visitor (parseBody target visitor).report
        | .error fault => (parseBody target visitor).report (.error fault)
  | lookUp target name =>
      onTarget here (lookUp target name) target fun node =>
        let text := (Utf8.decode? name).bind node.attributeText?
        (lookUp target name).conclude (.value (node.attribute? name) text) (.ok ())
  | save register =>
      match here with
      | none => .done (.ok ())
      | some node => .get fun memory => .set (memory.save register node) (.done (.ok ()))
  | same left right =>
      .get fun memory =>
        let equal := decide (memory.node? left = memory.node? right)
        (same left right).conclude (.same equal) (.ok ())
  | state => state.conclude .state (.ok ())
  | reset => .reset (reset.report (.ok ()))
  | parse visitor => .parse visitor (parse visitor).report
  | parseAfresh visitor =>
      .inspect fun reader => .parseOther reader.document visitor (parseAfresh visitor).report
  | fail fault => (fail fault).report (.error fault)
  | attempt actions => (scriptAll here actions).bind fun _ => .done (.ok ())

/-- Actions in order, up to the first that fails, whose fault is the result. -/
def scriptAll (here : Option Node) : List Action → RuleScript (Except Fault Unit)
  | [] => .done (.ok ())
  | action :: actions =>
      (script here action).bind fun
        | .ok () => scriptAll here actions
        | .error fault => .done (.error fault)

end

end Action

end TagWalk
