import TagWalk.Traversal

/-! # Policies

The visitors that do one thing with each node. A **policy** chooses, from the nodes seen so far,
whether the node at hand is let go, read or descended into, and whether its siblings still matter. A
fault is always passed on.

Descents use the same policy, so `Policy.parse` is a whole walk through a document.

A policy fixes its answer when a visit begins. A visitor may also answer late, from the nodes that it
has seen when its work on the node is done; on any one reader, its parse ends as well, and what comes of
it is what comes of some policy (`LatePolicy.exists_parse_eq`). -/

namespace TagWalk

/-- What is done with a node, one thing at each visit. -/
inductive Use
  /-- Nothing: the reader skips what is left of it. -/
  | ignore
  /-- Its body is read. -/
  | readBody
  /-- Its children are visited. -/
  | descend
  deriving DecidableEq

/-- What a policy decides at a visit. -/
structure Choice where
  /-- What is done with the node. -/
  use : Use
  /-- What is answered, if nothing fails. -/
  signal : Signal
  deriving DecidableEq

/-- A choice for every list of nodes seen, the node at hand first. It is made when the visit begins:
`policy (node :: seen)` fixes the answer before the node's own children are visited. For answers
that wait for them see `LatePolicy`. -/
abbrev Policy := List Node → Choice

namespace Policy

/-- **A policy as a visitor.** Its state is the list of nodes seen, the latest first; at `node` it
becomes `node :: seen`, and what is done and answered is `policy (node :: seen)`. A fault of the
work on the node takes the place of the answer. -/
def cast (policy : Policy) : Cast Unit (List Node) Empty := fun _ node =>
  .get fun seen =>
    let choice := policy (node :: seen)
    .set (node :: seen) <|
      match choice.use with
      | .ignore => .done (.ok choice.signal)
      | .readBody => .readBody node fun result => .done (result.map fun _ => choice.signal)
      | .descend => .descend node () fun result => .done (result.map fun _ => choice.signal)

/-- **A walk through a document** by a policy, from wherever the reader stands: `Session.parse` with
the policy as the only visitor, and with nothing seen before. -/
def parse (policy : Policy) (fuel : Nat) (reader : Reader) :
    Outcome Unit (List Node) Empty (Except Fault Unit) :=
  (Session.start reader []).parse (perform policy.cast fuel) ()

/-- The policy that descends into every node and goes on to every sibling: it answers `.proceed` to
every list of nodes. -/
def everything : Policy := fun _ => ⟨.descend, .proceed⟩

end Policy

end TagWalk
