import TagWalk.Reader.Body

/-! # Traces

What happens while a document is read, in order. Requests that can cause further events appear as a
pair, one event when they begin and one when they end, so a trace is a bracket structure; every
**moment** also keeps the reader as it was then.

`ι` names the visitors and `ε` is what visitors may remark themselves. -/

namespace TagWalk

/-- What a visitor answers when it is done with a node. -/
inductive Signal
  /-- Go on to the next sibling. -/
  | proceed
  /-- Look at no further sibling. -/
  | stop
  deriving DecidableEq

/-- One thing that happens. `parse` and `parsed`, `descend` and `descended`, `visit` and `visited`
stand around all that they cause. -/
inductive Event (ι ε : Type)
  /-- A record was logged. -/
  | log (record : LogRecord)
  /-- The reader returned to the front of the document. -/
  | reset
  /-- A parse begins, with its scopes dropped. -/
  | parse (visitor : ι)
  /-- A parse ended. -/
  | parsed (result : Except Fault Unit)
  /-- A descent to the children of a node begins. -/
  | descend (parent : Node) (visitor : ι)
  /-- A descent ended. -/
  | descended (parent : Node) (result : Except Fault Unit)
  /-- A visitor gets a node; its tag was looked for from the offset `soughtFrom` on. -/
  | visit (visitor : ι) (node : Node) (tag : Tag) (soughtFrom : Nat)
  /-- A visitor has answered. -/
  | visited (node : Node) (result : Except Fault Signal)
  /-- A body was read, or could not be. -/
  | body (node : Node) (result : Except Fault Bytes)
  /-- What a visitor left of a node was skipped, or could not be. -/
  | skip (node : Node) (result : Except Fault Bytes)
  /-- A closing tag was taken for that of the node whose children are enumerated. -/
  | close (parent : Node) (tag : Tag)
  /-- A visitor made a remark. -/
  | remark (note : ε)

/-- One event of a trace, with the reader just behind it and the document that it belongs to. -/
structure Moment (ι ε : Type) where
  /-- How many documents are being read around the one that the event belongs to. -/
  level : Nat
  /-- The reader just after the event. -/
  reader : Reader
  /-- What happened. -/
  event : Event ι ε

/-- What a visit shows of a node and of the reader: what a visitor could note down. -/
structure Sight where
  /-- The node. -/
  node : Node
  /-- How many scopes are open. -/
  depth : Nat
  /-- Where the reader stands. -/
  position : Nat
  deriving DecidableEq

namespace Moment

variable {ι ε : Type}

/-- The moments at which records are logged, one after another, while the reader stays as it is. -/
def logs (level : Nat) (reader : Reader) (records : List LogRecord) : List (Moment ι ε) :=
  records.map fun record => ⟨level, reader, .log record⟩

/-- What a moment shows, if it is a visit: the node, and the depth and the place of the reader at
the event. -/
def sight? (moment : Moment ι ε) : Option Sight :=
  match moment.event with
  | .visit _ node _ _ => some ⟨node, moment.reader.depth, moment.reader.position⟩
  | _ => none

/-- The body that a visitor got at a moment, if it got one. A body that was skipped counts for
nothing. -/
def body? (moment : Moment ι ε) : Option Bytes :=
  match moment.event with
  | .body _ (.ok body) => some body
  | _ => none

/-- The record that was logged at a moment, if one was. -/
def record? (moment : Moment ι ε) : Option LogRecord :=
  match moment.event with
  | .log record => some record
  | _ => none

end Moment

end TagWalk
