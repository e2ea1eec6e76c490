import TagWalk.AttributeList.Basic
import TagWalk.Fault
import TagWalk.Text.Quoted

/-! # Log records

What a reader reports about its work, besides results. A **record** keeps the data it is about;
level and wording are functions of it. `Logged` joins a result to the records made on the way. -/

namespace TagWalk

/-- How closely a record looks at the work. -/
inductive LogLevel
  /-- Something a user of the reader may want to know. -/
  | debug
  /-- A single step. -/
  | trace
  deriving DecidableEq

/-- One report. -/
inductive LogRecord
  /-- The document holds no element. -/
  | noRootElement
  /-- A scope was refused, with `depth` of them open. -/
  | scopesFull (depth : Nat)
  /-- A scope is opened over `depth` others, for an element or for the document. -/
  | enterScope (element : Option Bytes) (depth : Nat)
  /-- A scope was left, and `depth` others are open. -/
  | leaveScope (element : Option Bytes) (depth : Nat)
  /-- The declaration opened at the position is skipped. -/
  | skippingDeclaration (position : Nat)
  /-- The closing tag of an element does not occur behind its opening tag. -/
  | noClosingTag (name : Bytes) (bodyStart : Nat)
  /-- The surplus attributes of an element are dropped. -/
  | truncatingAttributes (name : Bytes)
  deriving DecidableEq

namespace LogRecord

/-- The level of a record: scopes and skipped declarations are single steps, and everything else is
`debug`. -/
def level : LogRecord → LogLevel
  | enterScope .. | leaveScope .. | skippingDeclaration _ => .trace
  | _ => .debug

/-- How the element of a scope is shown: `Some("name")`, and `None` for the document's scope, which
has none. -/
def renderElement : Option Bytes → String
  | none => "None"
  | some name => "Some(" ++ Quoted.quote (Utf8.lossy name) ++ ")"

/-- **The wording of a record.** Names are shown lossily, and quoted by `Quoted.quote` where a scope
is named. -/
def message : LogRecord → String
  | noRootElement => "document has no root element"
  | scopesFull depth => s!"scope stack full at depth {depth}"
  | enterScope element depth => s!"enter scope {renderElement element} at depth {depth}"
  | leaveScope element depth => s!"leave scope {renderElement element} at depth {depth}"
  | skippingDeclaration position => s!"skipping declaration at byte {position}"
  | noClosingTag name bodyStart => s!"no closing tag for <{Utf8.lossy name}> after byte {bodyStart}"
  | truncatingAttributes name =>
      s!"truncating attributes of <{Utf8.lossy name}> to {AttributeList.capacity}"

end LogRecord

/-- **A result with the records made on the way to it**: what a step of a reader answers. -/
structure Logged (α : Type) where
  /-- The records, in the order in which they were made. -/
  log : List LogRecord
  /-- The result. -/
  result : Except Fault α

namespace Logged

/-- A result without records. -/
def quiet {α : Type} (result : Except Fault α) : Logged α := ⟨[], result⟩

@[simp] theorem log_quiet {α : Type} (result : Except Fault α) : (quiet result).log = [] := rfl

@[simp] theorem result_quiet {α : Type} (result : Except Fault α) :
    (quiet result).result = result := rfl

end Logged

end TagWalk
