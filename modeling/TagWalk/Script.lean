import TagWalk.Trace

/-! # Scripts

What a visitor does with a node, as data. A **script** asks for one thing at a time and goes on with
the answer, so any program of reads, descents, parses and resets is a script: it may catch a fault
or pass it on, look at the reader, and keep a state that all visitors share.

`ι` names the visitors, `σ` is their state, `ε` what they remark, and `α` what the script ends
with. -/

namespace TagWalk

/-- A program of requests to a reader. Each request goes on with the answer to it, so `next` may
branch on faults, bodies, the reader and the shared state. -/
inductive Script (ι σ ε α : Type)
  /-- Nothing more is asked for. -/
  | done (value : α)
  /-- Read the body of a node. -/
  | readBody (node : Node) (next : Except Fault Bytes → Script ι σ ε α)
  /-- Have the children of a node visited. -/
  | descend (parent : Node) (visitor : ι) (next : Except Fault Unit → Script ι σ ε α)
  /-- Have the root element visited that comes next in the document. -/
  | parse (visitor : ι) (next : Except Fault Unit → Script ι σ ε α)
  /-- Have another document parsed, by a reader of its own with lenient options. -/
  | parseOther (document : Bytes) (visitor : ι) (next : Except Fault Unit → Script ι σ ε α)
  /-- Return to the front of the document. -/
  | reset (next : Script ι σ ε α)
  /-- Look at the reader. -/
  | inspect (next : Reader → Script ι σ ε α)
  /-- Look at the shared state. -/
  | get (next : σ → Script ι σ ε α)
  /-- Replace the shared state. -/
  | set (state : σ) (next : Script ι σ ε α)
  /-- Leave a remark in the trace. -/
  | remark (note : ε) (next : Script ι σ ε α)

/-- **The visitors**: for each name, what it does with a node. It ends with `.ok signal`, or with
`.error fault`, which ends the enumeration that called it. -/
abbrev Cast (ι σ ε : Type) := ι → Node → Script ι σ ε (Except Fault Signal)

namespace Script

variable {ι σ ε α β : Type}

/-- One script after another: `next` goes on with the value that the first one is done with. -/
def bind (script : Script ι σ ε α) (next : α → Script ι σ ε β) : Script ι σ ε β :=
  match script with
  | done value => next value
  | readBody node k => .readBody node fun result => (k result).bind next
  | descend parent visitor k => .descend parent visitor fun result => (k result).bind next
  | parse visitor k => .parse visitor fun result => (k result).bind next
  | parseOther document visitor k =>
      .parseOther document visitor fun result => (k result).bind next
  | reset k => .reset (k.bind next)
  | inspect k => .inspect fun reader => (k reader).bind next
  | get k => .get fun state => (k state).bind next
  | set state k => .set state (k.bind next)
  | remark note k => .remark note (k.bind next)

instance : Monad (Script ι σ ε) where
  pure := done
  bind := bind

@[simp] theorem bind_done (value : α) (next : α → Script ι σ ε β) :
    (done value).bind next = next value := rfl

end Script

end TagWalk
