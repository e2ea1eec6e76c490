/-! # Faults

Why reading a document can fail. A **fault** names its cause and the figures that describe it; its
wording is given once, by `Fault.message`. Element names appear in faults as text, so a name that is
no text is shown lossily.

All faults but `Fault.allocation` can come of reading: scopes are a list here, which always has room in
memory, and `Fault.depthExceeded` is what bounds it. -/

namespace TagWalk

/-- The two sorts of faults: those of a document, and those of a reader without room. -/
inductive FaultKind
  /-- The document has not the shape that the reader expects. -/
  | malformedInput
  /-- The scope stack could not grow. -/
  | resourceExhausted
  deriving DecidableEq

/-- Why reading failed, with the figures that the wording quotes. -/
inductive Fault
  /-- No `<` stands at or after the position. -/
  | missingTagStart (position : Nat)
  /-- The tag opened at the position has no `>`. -/
  | missingTagEnd (position : Nat)
  /-- The tag opened at the position has no element name. -/
  | emptyDeclaration (position : Nat)
  /-- A closing tag stands at the position, where an element was expected. -/
  | unexpectedClosingTag (position : Nat)
  /-- An element name of `length` bytes is too long for its closing tag to be matched. -/
  | nameTooLong (length max : Nat)
  /-- The closing tag of an element is longer than the `remaining` bytes behind its opening tag. -/
  | closingTagOutOfRange (name : String) (remaining : Nat)
  /-- The closing tag of an element does not occur. -/
  | closingTagNotFound (name : String)
  /-- An element declares more than `max` attributes. -/
  | tooManyAttributes (name : String) (max : Nat)
  /-- No scope can be opened beyond `max` of them. -/
  | depthExceeded (max : Nat)
  /-- The memory for another scope was refused. Running out of memory is not modelled: no function
  here answers with this fault, and its wording is one fixed text, where the cause that an allocator
  gives could stand instead. -/
  | allocation
  deriving DecidableEq

namespace Fault

/-- The sort of a fault: `depthExceeded` and `allocation` are about room for scopes, all others
about the document. -/
def kind : Fault → FaultKind
  | depthExceeded _ | allocation => .resourceExhausted
  | _ => .malformedInput

/-- Whether the document itself is at fault: `fault.kind = .malformedInput`. -/
def isMalformedInput (fault : Fault) : Bool := decide (fault.kind = .malformedInput)

/-- **The wording of a fault**, with its figures in decimal and its name between backticks or inside
`</…>`. -/
def message : Fault → String
  | missingTagStart position => s!"expected '<' at or after byte {position}"
  | missingTagEnd position => s!"tag opened at byte {position} has no closing '>'"
  | emptyDeclaration position => s!"tag at byte {position} has no element name"
  | unexpectedClosingTag position =>
      s!"closing tag at byte {position} where an element was expected"
  | nameTooLong length max =>
      s!"element name is {length} bytes, closing tags can be matched for at most {max}"
  | closingTagOutOfRange name remaining =>
      s!"closing tag for `{name}` is longer than the {remaining} bytes left in the document"
  | closingTagNotFound name => s!"closing tag `</{name}>` not found"
  | tooManyAttributes name max => s!"element `{name}` declares more than {max} attributes"
  | depthExceeded max => s!"nesting depth exceeds the configured maximum of {max}"
  | allocation =>
      "scope stack allocation failed: memory allocation failed because the computed capacity " ++
        "exceeded the collection's maximum"

end Fault

end TagWalk
