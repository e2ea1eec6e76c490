import TagWalk.Script
import TagWalk.Session

/-! # Traversals

How a reader hands nodes to visitors. A visitor's work on a node and the reader's work around it
move the same cursor; after a visitor that let a node go, the reader skips what is left of it.

Visitors can send a reader back to the front of its document, so a traversal need not end. Every
function that calls a visitor, or repeats a step, is bounded by `fuel` and answers `none` when that
runs out; `act` is what a visitor's work on a node comes to.

* **`childStep`**, **`scanChildren`** — one tag among the children of a node; all of them.
* **`descend`**, **`parse`** — the two requests that cause visits.
* **`Script.run`** — a script, request by request.
* **`perform`** — a visitor's work on a node: its script, with visitors that are called from it
  performed in turn. -/

namespace TagWalk

/-- A session and the result of what it did, or `none` when the fuel ran out on the way. -/
abbrev Outcome (ι σ ε α : Type) := Option (Session ι σ ε × α)

/-- What a visitor's work on a node comes to: `perform cast fuel` is one, and all functions here
take any. -/
abbrev Act (ι σ ε : Type) := ι → Node → Session ι σ ε → Outcome ι σ ε (Except Fault Signal)

/-- Whether an enumeration of children goes on. -/
inductive Progress
  /-- There may be more children. -/
  | more
  /-- The enumeration has ended. -/
  | finished (result : Except Fault Unit)

namespace Session

variable {ι σ ε : Type}

/-- **Hand a node to a visitor.** Its work stands between the events `.visit` and `.visited` of the
trace. -/
def visit (act : Act ι σ ε) (visitor : ι) (node : Node) (tag : Tag) (soughtFrom : Nat)
    (session : Session ι σ ε) : Outcome ι σ ε (Except Fault Signal) :=
  match act visitor node (session.record (.visit visitor node tag soughtFrom)) with
  | none => none
  | some (session, result) => some (session.record (.visited node result), result)

/-- **Open the node of a tag and hand it to a visitor.** A tag that is no declaration is reported
instead, with the reader behind it. `soughtFrom` is where the reader stood when it looked for the
tag. -/
def visitTag (act : Act ι σ ε) (visitor : ι) (tag : Tag) (session : Session ι σ ε) :
    Outcome ι σ ε (Except Fault (Node × Signal)) :=
  -- the step below moves the reader
  let soughtFrom := session.reader.position
  match session.openNode tag with
  | (session, .error fault) => some (session, .error fault)
  | (session, .ok node) =>
      match session.visit act visitor node tag soughtFrom with
      | none => none
      | some (session, result) => some (session, result.map (node, ·))

/-- What follows a visit among the children of a node: `.stop` ends the enumeration where the reader
stands, and otherwise the rest of the child is skipped, unless `isClosed` says that there is
none. -/
def afterVisit (child : Node) (signal : Signal) (session : Session ι σ ε) :
    Session ι σ ε × Progress :=
  match signal with
  | .stop => (session, .finished (.ok ()))
  | .proceed =>
      if session.reader.isClosed child then (session, .more)
      else
        match session.skip child with
        | (session, .error fault) => (session, .finished (.error fault))
        | (session, .ok _) => (session, .more)

/-- **One tag among the children of a node.** A closing tag ends the enumeration, whatever name it
bears; markup is passed over; and any other tag is a child. -/
def childStep (act : Act ι σ ε) (parent : Node) (visitor : ι) (session : Session ι σ ε) :
    Outcome ι σ ε Progress :=
  match session.reader.cursor.nextTag with
  | .error fault => some (session, .finished (.error fault))
  | .ok tag =>
      match session.reader.cursor.kindOf tag with
      | .closing => some (session.close parent tag, .finished (.ok ()))
      | .markup => some (session.skipMarkup tag, .more)
      | .element =>
          match session.visitTag act visitor tag with
          | none => none
          | some (session, .error fault) => some (session, .finished (.error fault))
          | some (session, .ok (child, signal)) => some (session.afterVisit child signal)

/-- **The children of a node, one tag after another**: `childStep` until it is finished, and `none`
when that takes more than `fuel` steps. -/
def scanChildren (act : Act ι σ ε) (parent : Node) (visitor : ι) :
    Nat → Session ι σ ε → Outcome ι σ ε (Except Fault Unit)
  | 0, _ => none
  | fuel + 1, session =>
      match session.childStep act parent visitor with
      | none => none
      | some (session, .finished result) => some (session, result)
      | some (session, .more) => scanChildren act parent visitor fuel session

/-- Work inside a scope, which is left again however the work ends. Without room for the scope there
is no work, and the answer is `Fault.depthExceeded`. -/
def withScope (element : Option Node) (session : Session ι σ ε)
    (work : Session ι σ ε → Outcome ι σ ε (Except Fault Unit)) :
    Outcome ι σ ε (Except Fault Unit) :=
  match session.enterScope element with
  | (session, .error fault) => some (session, .error fault)
  | (session, .ok ()) =>
      match work session with
      | none => none
      | some (session, result) => some (session.leaveScope, result)

/-- The children of a node in a scope of their own; a node that closes itself has none, needs no
scope and is marked as closed. -/
def children (act : Act ι σ ε) (fuel : Nat) (parent : Node) (visitor : ι)
    (session : Session ι σ ε) : Outcome ι σ ε (Except Fault Unit) :=
  if parent.selfClosing then
    some ({ session with reader := session.reader.markClosed parent }, .ok ())
  else session.withScope (some parent) (scanChildren act parent visitor fuel)

/-- **Have the children of a node visited**, until a closing tag, a visitor's stop or a fault. The
enumeration begins where the reader stands, which need not be inside of the node. -/
def descend (act : Act ι σ ε) (fuel : Nat) (parent : Node) (visitor : ι)
    (session : Session ι σ ε) : Outcome ι σ ε (Except Fault Unit) :=
  match (session.record (.descend parent visitor)).children act fuel parent visitor with
  | none => none
  | some (session, result) => some (session.record (.descended parent result), result)

/-- Hand the root element to a visitor. Its signal has nothing left to stop, so `.stop` and
`.proceed` come to the same. A closing tag is a fault here. -/
def visitRoot (act : Act ι σ ε) (visitor : ι) (session : Session ι σ ε) :
    Outcome ι σ ε (Except Fault Unit) :=
  match session.reader.cursor.nextTag with
  | .error fault => some (session, .error fault)
  | .ok tag =>
      if session.reader.cursor.kindOf tag = .closing then
        some (session, .error (.unexpectedClosingTag tag.start))
      else
        match session.visitTag act visitor tag with
        | none => none
        | some (session, result) => some (session, result.map fun _ => ())

/-- The prolog and the root element. A document that ends with its prolog has no root. -/
def root (act : Act ι σ ε) (visitor : ι) (session : Session ι σ ε) :
    Outcome ι σ ε (Except Fault Unit) :=
  match session.skipProlog with
  | (session, .error fault) => some (session, .error fault)
  | (session, .ok ()) =>
      -- the prolog reaches to the end of the document
      if session.reader.isEof then some (session.log [.noRootElement], .ok ())
      else session.withScope none (visitRoot act visitor)

/-- **Have the next root element visited**, from wherever the reader stands: scopes and mark are
dropped, the prolog is skipped, and one element is visited. Elements behind it are left alone. -/
def parse (act : Act ι σ ε) (visitor : ι) (session : Session ι σ ε) :
    Outcome ι σ ε (Except Fault Unit) :=
  match (session.beginParse visitor).root act visitor with
  | none => none
  | some (session, result) => some (session.record (.parsed result), result)

/-- **Have another document parsed** by a reader of its own, with lenient options. This session's
reader does not move, and the visitors share their state with it. -/
def parseOther (act : Act ι σ ε) (document : Bytes) (visitor : ι) (session : Session ι σ ε) :
    Outcome ι σ ε (Except Fault Unit) :=
  match (session.nest document).parse act visitor with
  | none => none
  | some (inner, result) => some (inner.unnest session.reader session.level, result)

end Session

/-- **Run a script**, with `act` for the visitors it calls: request by request, and `none` as soon
as one of them runs out of fuel. -/
def Script.run {ι σ ε α : Type} (act : Act ι σ ε) (fuel : Nat) :
    Script ι σ ε α → Session ι σ ε → Outcome ι σ ε α
  | .done value, session => some (session, value)
  | .readBody node next, session =>
      let (session, result) := session.readBody node
      (next result).run act fuel session
  | .descend parent visitor next, session =>
      match session.descend act fuel parent visitor with
      | none => none
      | some (session, result) => (next result).run act fuel session
  | .parse visitor next, session =>
      match session.parse act visitor with
      | none => none
      | some (session, result) => (next result).run act fuel session
  | .parseOther document visitor next, session =>
      match session.parseOther act document visitor with
      | none => none
      | some (session, result) => (next result).run act fuel session
  | .reset next, session => next.run act fuel session.reset
  | .inspect next, session => (next session.reader).run act fuel session
  | .get next, session => (next session.state).run act fuel session
  | .set state next, session => next.run act fuel { session with state }
  | .remark note next, session => next.run act fuel (session.record (.remark note))

/-- **A visitor's work on a node**: `perform cast (fuel + 1)` runs the visitor's script with
`perform cast fuel` for the visitors that it calls. So fuel bounds how deep calls are nested, and
none is left at some depth. -/
def perform {ι σ ε : Type} (cast : Cast ι σ ε) : Nat → Act ι σ ε
  | 0, _, _, _ => none
  | fuel + 1, visitor, node, session =>
      (cast visitor node).run (perform cast fuel) fuel session

/-- **Run a script at the top**, outside of any visit:
`script.run (perform cast fuel) fuel session`. -/
def Script.play {ι σ ε α : Type} (script : Script ι σ ε α) (cast : Cast ι σ ε) (fuel : Nat)
    (session : Session ι σ ε) : Outcome ι σ ε α :=
  script.run (perform cast fuel) fuel session

end TagWalk
