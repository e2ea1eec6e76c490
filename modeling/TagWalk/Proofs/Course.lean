import TagWalk.Proofs.Inversion
import TagWalk.Proofs.Prolog

/-! # Courses of events

However a visitor calls back into a reader, what happens to one document is put together from a few
kinds of steps: bodies read, tags passed, scopes opened and left, visits and calls with more of the
same inside. A **course** is a statement about such a stretch of work: the reader before it, the
moments of it, and the reader after it.

* **`Course.Scoped`**, **`Course.Rooted`** — the work inside a scope, and the work of a parse.
* **`Course.Visiting`**, **`Course.Enumerating`** — a visit, and all that happens among the children of
  a node.
* **`Course.Composed`** — a course is composed when it holds of what visitors ask for, and of a descent
  or a parse inside of which every visit is work of which it holds.
* **`Course.Closed`** — a course is closed when it holds of every step and of all that is put
  together from stretches of which it holds. Closed courses are composed.
* **`Session.Follows`** — a session has become another one, and the moments on its own document
  follow a course. Moments on documents that were read inside are passed over.
* **`Course.Composed.follows_run`**, **`.follows_perform`** — what visitors do, whatever their scripts
  ask for, follows every composed course. -/

namespace TagWalk

variable {ι σ ε α : Type}

namespace Moment

/-- The moments of a step that logs first and then shows its result in an event: `logs` and one
moment more. -/
def reported (level : Nat) (reader : Reader) (logged : Logged α) (event : Except Fault α → Event ι ε) :
    List (Moment ι ε) :=
  logs level reader logged.log ++ [⟨level, reader, event logged.result⟩]

/-- Logged moments belong to the document that is being read. -/
theorem level_of_mem_logs {level : Nat} {reader : Reader} {records : List LogRecord}
    {moment : Moment ι ε} (h : moment ∈ logs level reader records) : moment.level = level := by
  obtain ⟨record, -, rfl⟩ := List.mem_map.mp h
  rfl

/-- All moments of a reported step belong to the document that is being read. -/
theorem level_of_mem_reported {level : Nat} {reader : Reader} {logged : Logged α}
    {event : Except Fault α → Event ι ε} {moment : Moment ι ε}
    (h : moment ∈ reported level reader logged event) : moment.level = level := by
  rcases List.mem_append.mp h with h | h
  · exact level_of_mem_logs h
  · rw [List.mem_singleton.mp h]

end Moment

/-- **A statement about a stretch of work on one document**: `P before moments after` is about the
reader before it, the moments of it, and the reader after it. -/
abbrev Course (ι ε : Type) := Reader → List (Moment ι ε) → Reader → Prop

namespace Course

/-- **Work in a scope**: the scope is refused, or it is opened, work of which `P` holds is done
inside, and what is then innermost is left. That need not be the scope that was opened. -/
inductive Scoped (P : Course ι ε) (level : Nat) (element : Option Node) (reader : Reader) :
    List (Moment ι ε) → Reader → Except Fault Unit → Prop
  /-- There is no room for the scope. -/
  | refused (full : reader.options.maxDepth ≤ reader.depth) :
      Scoped P level element reader [⟨level, reader, .log (.scopesFull reader.depth)⟩] reader
        (.error (.depthExceeded reader.options.maxDepth))
  /-- The scope is opened, and left after the work. -/
  | entered {inner : List (Moment ι ε)} {worked : Reader} (result : Except Fault Unit)
      (room : reader.depth < reader.options.maxDepth)
      (work : P (reader.pushScope element) inner worked) :
      Scoped P level element reader
        (⟨level, reader.pushScope element,
            .log (.enterScope (Scope.of element).element reader.depth)⟩ ::
          (inner ++ [⟨level, worked.leaveScope.1, .log worked.leaveScope.2⟩]))
        worked.leaveScope.1 result

/-- The reader behind a prolog, or where skipping it failed. Only its cursor has moved. -/
def behindProlog (reader : Reader) : Reader := { reader with cursor := reader.cursor.skipProlog.1 }

/-- **The work of a parse** on a reader without scopes: the prolog, and a root element if there is
one. `P` is about the visit of that. -/
inductive Rooted (P : Course ι ε) (level : Nat) (reader : Reader) :
    List (Moment ι ε) → Reader → Except Fault Unit → Prop
  /-- The prolog is broken. -/
  | broken {fault : Fault} (skipped : reader.cursor.skipProlog.2.result = .error fault) :
      Rooted P level reader
        (Moment.logs level (behindProlog reader) reader.cursor.skipProlog.2.log)
        (behindProlog reader) (.error fault)
  /-- The document ends with its prolog. -/
  | empty (skipped : reader.cursor.skipProlog.2.result = .ok ())
      (eof : (behindProlog reader).isEof = true) :
      Rooted P level reader
        (Moment.logs level (behindProlog reader)
          (reader.cursor.skipProlog.2.log ++ [.noRootElement]))
        (behindProlog reader) (.ok ())
  /-- The root element is visited in the document's scope. -/
  | element {inner : List (Moment ι ε)} {after : Reader} {result : Except Fault Unit}
      (skipped : reader.cursor.skipProlog.2.result = .ok ())
      (notEof : (behindProlog reader).isEof = false)
      (work : Scoped P level none (behindProlog reader) inner after result) :
      Rooted P level reader
        (Moment.logs level (behindProlog reader) reader.cursor.skipProlog.2.log ++ inner)
        after result

/-- **A visit**: the node of the next tag is opened and handed to a visitor, whose work is one of
which `P` holds. The moments of the work stand between `.visit` and `.visited`. -/
inductive Visiting (P : Course ι ε) (level : Nat) (reader : Reader) (node : Node)
    (answer : Except Fault Signal) : List (Moment ι ε) → Reader → Prop
  /-- The node is opened, and the visitor answers after its work. -/
  | visited {tag : Tag} {inner : List (Moment ι ε)} {after : Reader} (visitor : ι)
      (next : reader.cursor.nextTag = .ok tag) (kind : reader.cursor.kindOf tag = .element)
      (decoded : (reader.openNode tag).2.result = .ok node)
      (work : P (reader.passTag tag) inner after) :
      Visiting P level reader node answer
        (Moment.logs level (reader.passTag tag) (reader.openNode tag).2.log ++
          ⟨level, reader.passTag tag, .visit visitor node tag reader.position⟩ ::
            (inner ++ [⟨level, after, .visited node answer⟩]))
        after

/-- The step that skips what is left of a child: `readBody`, reported by a `.skip` event. -/
def Skipping (level : Nat) (child : Node) : Course ι ε := fun before moments after =>
  moments = Moment.reported level after (before.readBody child).2 (.skip child) ∧
    after = (before.readBody child).1

/-- **The enumeration of the children of a node**, one tag after another. Behind a visit, what is
left of the child is skipped, unless the child is closed. Five of the cases end it, and three go
on. -/
inductive Enumerating (P : Course ι ε) (level : Nat) (parent : Node) :
    Reader → List (Moment ι ε) → Reader → Prop
  /-- No tag is left. -/
  | missing {reader : Reader} {fault : Fault} (next : reader.cursor.nextTag = .error fault) :
      Enumerating P level parent reader [] reader
  /-- A closing tag ends the enumeration. -/
  | closed {reader : Reader} {tag : Tag} (next : reader.cursor.nextTag = .ok tag)
      (kind : reader.cursor.kindOf tag = .closing) :
      Enumerating P level parent reader
        [⟨level, (reader.passTag tag).markClosed parent, .close parent tag⟩]
        ((reader.passTag tag).markClosed parent)
  /-- Markup is passed over. -/
  | markup {reader after : Reader} {tag : Tag} {rest : List (Moment ι ε)}
      (next : reader.cursor.nextTag = .ok tag) (kind : reader.cursor.kindOf tag = .markup)
      (more : Enumerating P level parent (reader.passTag tag) rest after) :
      Enumerating P level parent reader
        (⟨level, reader.passTag tag, .log (.skippingDeclaration tag.start)⟩ :: rest) after
  /-- An opening tag is no declaration. -/
  | broken {reader : Reader} {tag : Tag} {fault : Fault} (next : reader.cursor.nextTag = .ok tag)
      (kind : reader.cursor.kindOf tag = .element)
      (decoded : (reader.openNode tag).2.result = .error fault) :
      Enumerating P level parent reader
        (Moment.logs level (reader.passTag tag) (reader.openNode tag).2.log) (reader.passTag tag)
  /-- A visitor fails, or stops the enumeration. -/
  | ended {reader after : Reader} {child : Node} {answer : Except Fault Signal}
      {moments : List (Moment ι ε)} (visit : Visiting P level reader child answer moments after)
      (ends : answer ≠ .ok .proceed) : Enumerating P level parent reader moments after
  /-- What is left of a child cannot be skipped. -/
  | unread {reader visited : Reader} {child : Node} {fault : Fault} {moments : List (Moment ι ε)}
      (visit : Visiting P level reader child (.ok .proceed) moments visited)
      (unclosed : visited.isClosed child = false)
      (read : (visited.readBody child).2.result = .error fault) :
      Enumerating P level parent reader
        (moments ++ Moment.reported level (visited.readBody child).1 (visited.readBody child).2
          (.skip child))
        (visited.readBody child).1
  /-- What is left of a child is skipped, and the enumeration goes on behind it. -/
  | skipped {reader visited after : Reader} {child : Node} {body : Bytes}
      {moments rest : List (Moment ι ε)}
      (visit : Visiting P level reader child (.ok .proceed) moments visited)
      (unclosed : visited.isClosed child = false)
      (read : (visited.readBody child).2.result = .ok body)
      (more : Enumerating P level parent (visited.readBody child).1 rest after) :
      Enumerating P level parent reader
        (moments ++ (Moment.reported level (visited.readBody child).1 (visited.readBody child).2
          (.skip child) ++ rest))
        after
  /-- A child is closed, and the enumeration goes on where its visitor left the reader. -/
  | passed {reader visited after : Reader} {child : Node} {moments rest : List (Moment ι ε)}
      (visit : Visiting P level reader child (.ok .proceed) moments visited)
      (closed : visited.isClosed child = true)
      (more : Enumerating P level parent visited rest after) :
      Enumerating P level parent reader (moments ++ rest) after

/-- **The visit of a root element**, if there is one. Its answer does not matter, so it is not
told. -/
inductive RootVisiting (P : Course ι ε) (level : Nat) (reader : Reader) :
    List (Moment ι ε) → Reader → Prop
  /-- There is none, as no tag is left or the next one closes an element. -/
  | missing : RootVisiting P level reader [] reader
  /-- Its tag is no declaration. -/
  | broken {tag : Tag} {fault : Fault} (next : reader.cursor.nextTag = .ok tag)
      (kind : reader.cursor.kindOf tag = .element)
      (decoded : (reader.openNode tag).2.result = .error fault) :
      RootVisiting P level reader
        (Moment.logs level (reader.passTag tag) (reader.openNode tag).2.log) (reader.passTag tag)
  /-- It is visited, and the answer does not matter. -/
  | visited {root : Node} {answer : Except Fault Signal} {moments : List (Moment ι ε)}
      {after : Reader} (visit : Visiting P level reader root answer moments after) :
      RootVisiting P level reader moments after

/-- **Composed as the reader composes its work**: `P` holds of all that visitors ask for, one
request after another, when it holds of the work of every visit in it. `descend` and `parse` may
look at the whole enumeration or root visit inside. -/
structure Composed (P : Course ι ε) : Prop where
  /-- Nothing happens. -/
  nil (reader : Reader) : P reader [] reader
  /-- One request after another. -/
  append {before between after : Reader} {first second : List (Moment ι ε)}
      (h₁ : P before first between) (h₂ : P between second after) :
      P before (first ++ second) after
  /-- A visitor makes a remark. -/
  remark (level : Nat) (reader : Reader) (note : ε) : P reader [⟨level, reader, .remark note⟩] reader
  /-- The reader returns to the front of its document. -/
  reset (level : Nat) (reader : Reader) : P reader [⟨level, reader.reset, .reset⟩] reader.reset
  /-- A visitor reads a body. -/
  readBody (level : Nat) (reader : Reader) (node : Node) :
    P reader (Moment.reported level (reader.readBody node).1 (reader.readBody node).2 (.body node))
      (reader.readBody node).1
  /-- A descent into a node that closes itself only marks it. -/
  descendEmpty (level : Nat) (reader : Reader) {parent : Node} (visitor : ι)
      (closed : parent.selfClosing = true) :
    P reader
      [⟨level, reader, .descend parent visitor⟩,
        ⟨level, reader.markClosed parent, .descended parent (.ok ())⟩]
      (reader.markClosed parent)
  /-- A descent into any other node enumerates its children in a scope. -/
  descend (level : Nat) {reader after : Reader} {parent : Node} {inner : List (Moment ι ε)}
      {result : Except Fault Unit} (visitor : ι) (notClosed : parent.selfClosing = false)
      (work : Scoped (Enumerating P level parent) level (some parent) reader inner after result) :
    P reader
      (⟨level, reader, .descend parent visitor⟩ ::
        (inner ++ [⟨level, after, .descended parent result⟩]))
      after
  /-- A parse drops the scopes and visits a root element from there. -/
  parse (level : Nat) {reader after : Reader} {inner : List (Moment ι ε)}
      {result : Except Fault Unit} (visitor : ι)
      (work : Rooted (RootVisiting P level) level reader.dropScopes inner after result) :
    P reader
      (⟨level, reader.dropScopes, .parse visitor⟩ ::
        (inner ++ [⟨level, after, .parsed result⟩]))
      after

/-- **Closed under work**: `P` holds of every step, of stretches one after another, and of visits,
descents and parses inside which it holds. So `P` may be proved step by step. -/
structure Closed (P : Course ι ε) : Prop where
  /-- Nothing happens. -/
  nil (reader : Reader) : P reader [] reader
  /-- One stretch after another. -/
  append {before between after : Reader} {first second : List (Moment ι ε)}
      (h₁ : P before first between) (h₂ : P between second after) :
      P before (first ++ second) after
  /-- A visitor makes a remark. -/
  remark (level : Nat) (reader : Reader) (note : ε) : P reader [⟨level, reader, .remark note⟩] reader
  /-- The reader returns to the front of its document. -/
  reset (level : Nat) (reader : Reader) : P reader [⟨level, reader.reset, .reset⟩] reader.reset
  /-- A visitor reads a body. -/
  readBody (level : Nat) (reader : Reader) (node : Node) :
    P reader (Moment.reported level (reader.readBody node).1 (reader.readBody node).2 (.body node))
      (reader.readBody node).1
  /-- The reader skips what a visitor left of a node. -/
  skip (level : Nat) (reader : Reader) (node : Node) :
    P reader (Moment.reported level (reader.readBody node).1 (reader.readBody node).2 (.skip node))
      (reader.readBody node).1
  /-- Markup between children is passed over. -/
  skipMarkup (level : Nat) {reader : Reader} {tag : Tag} (next : reader.cursor.nextTag = .ok tag)
      (kind : reader.cursor.kindOf tag = .markup) :
    P reader [⟨level, reader.passTag tag, .log (.skippingDeclaration tag.start)⟩]
      (reader.passTag tag)
  /-- A closing tag ends the children of a node. -/
  close (level : Nat) {reader : Reader} {tag : Tag} (parent : Node)
      (next : reader.cursor.nextTag = .ok tag) (kind : reader.cursor.kindOf tag = .closing) :
    P reader [⟨level, (reader.passTag tag).markClosed parent, .close parent tag⟩]
      ((reader.passTag tag).markClosed parent)
  /-- An opening tag that is no declaration is passed. -/
  broken (level : Nat) {reader : Reader} {tag : Tag} {fault : Fault}
      (next : reader.cursor.nextTag = .ok tag) (kind : reader.cursor.kindOf tag = .element)
      (decoded : (reader.openNode tag).2.result = .error fault) :
    P reader (Moment.logs level (reader.passTag tag) (reader.openNode tag).2.log)
      (reader.passTag tag)
  /-- A node is opened and visited. -/
  visit (level : Nat) {reader after : Reader} {tag : Tag} {node : Node} {inner : List (Moment ι ε)}
      (visitor : ι) (result : Except Fault Signal)
      (next : reader.cursor.nextTag = .ok tag) (kind : reader.cursor.kindOf tag = .element)
      (decoded : (reader.openNode tag).2.result = .ok node)
      (work : P (reader.passTag tag) inner after) :
    P reader
      (Moment.logs level (reader.passTag tag) (reader.openNode tag).2.log ++
        ⟨level, reader.passTag tag, .visit visitor node tag reader.position⟩ ::
          (inner ++ [⟨level, after, .visited node result⟩]))
      after
  /-- A descent into a node that closes itself only marks it. -/
  descendEmpty (level : Nat) (reader : Reader) {parent : Node} (visitor : ι)
      (closed : parent.selfClosing = true) :
    P reader
      [⟨level, reader, .descend parent visitor⟩,
        ⟨level, reader.markClosed parent, .descended parent (.ok ())⟩]
      (reader.markClosed parent)
  /-- A descent into any other node works in a scope. -/
  descend (level : Nat) {reader after : Reader} {parent : Node} {inner : List (Moment ι ε)}
      {result : Except Fault Unit} (visitor : ι) (notClosed : parent.selfClosing = false)
      (work : Scoped P level (some parent) reader inner after result) :
    P reader
      (⟨level, reader, .descend parent visitor⟩ ::
        (inner ++ [⟨level, after, .descended parent result⟩]))
      after
  /-- A parse drops the scopes and works from there. -/
  parse (level : Nat) {reader after : Reader} {inner : List (Moment ι ε)}
      {result : Except Fault Unit} (visitor : ι)
      (work : Rooted P level reader.dropScopes inner after result) :
    P reader
      (⟨level, reader.dropScopes, .parse visitor⟩ ::
        (inner ++ [⟨level, after, .parsed result⟩]))
      after

section Imp

variable {P Q : Course ι ε} {level : Nat} {reader after : Reader} {moments : List (Moment ι ε)}
  {result : Except Fault Unit}

/-- Work in a scope is other work in a scope when what is done inside is: `P` may be replaced by a
`Q` that it implies. -/
theorem Scoped.imp {element : Option Node} (h : Scoped P level element reader moments after result)
    (himp : ∀ before inner after, P before inner after → Q before inner after) :
    Scoped Q level element reader moments after result := by
  cases h with
  | refused full => exact .refused full
  | entered result room work => exact .entered result room (himp _ _ _ work)

/-- The work of a parse is the work of another one when the visit of the root element is, as in
`Scoped.imp`. -/
theorem Rooted.imp (h : Rooted P level reader moments after result)
    (himp : ∀ before inner after, P before inner after → Q before inner after) :
    Rooted Q level reader moments after result := by
  cases h with
  | broken skipped => exact .broken skipped
  | empty skipped eof => exact .empty skipped eof
  | element skipped notEof work => exact .element skipped notEof (work.imp himp)

end Imp

namespace Closed

variable {P : Course ι ε} (h : P.Closed) {level : Nat} {reader after : Reader}
  {moments : List (Moment ι ε)}

include h

/-- A closed course holds of visits. -/
theorem of_visiting {node : Node} {answer : Except Fault Signal}
    (hvisit : Visiting P level reader node answer moments after) : P reader moments after := by
  cases hvisit with
  | visited visitor next kind decoded work =>
    exact h.visit level visitor answer next kind decoded work

/-- **A closed course holds of enumerations**, by induction on the tags that they pass: each case of
`Enumerating` is put together from steps of which `P` holds. -/
theorem of_enumerating {parent : Node}
    (hchildren : Enumerating P level parent reader moments after) : P reader moments after := by
  induction hchildren with
  | missing => exact h.nil _
  | closed next kind => exact h.close level parent next kind
  | markup next kind _ ih => exact h.append (h.skipMarkup level next kind) ih
  | broken next kind decoded => exact h.broken level next kind decoded
  | ended visit => exact h.of_visiting visit
  | unread visit => exact h.append (h.of_visiting visit) (h.skip level _ _)
  | skipped visit _ _ _ ih => exact h.append (h.of_visiting visit) (h.append (h.skip level _ _) ih)
  | passed visit _ _ ih => exact h.append (h.of_visiting visit) ih

/-- A closed course holds of root elements. -/
theorem of_rootVisiting (hroot : RootVisiting P level reader moments after) :
    P reader moments after := by
  cases hroot with
  | missing => exact h.nil _
  | broken next kind decoded => exact h.broken level next kind decoded
  | visited visit => exact h.of_visiting visit

/-- **Closed courses are composed**: inside of a descent, `Enumerating P` is a stretch of which `P`
holds, and so is `RootVisiting P` inside of a parse. -/
theorem composed : P.Composed where
  nil := h.nil
  append := h.append
  remark := h.remark
  reset := h.reset
  readBody := h.readBody
  descendEmpty := h.descendEmpty
  descend level _ _ _ _ _ visitor notClosed work :=
    h.descend level visitor notClosed (work.imp fun _ _ _ => h.of_enumerating)
  parse level _ _ _ _ visitor work :=
    h.parse level visitor (work.imp fun _ _ _ => h.of_rootVisiting)

end Closed

end Course

/-! ## Sessions that follow a course -/

namespace Session

/-- **What a session has become follows a course.** The trace has grown, by moments of this document
and of documents that were read inside, `before.level ≤ moment.level`, and `P` holds of those of
this document, of `before.level` itself. -/
def Follows (P : Course ι ε) (before after : Session ι σ ε) : Prop :=
  after.level = before.level ∧
    ∃ moments : List (Moment ι ε), after.trace.toList = before.trace.toList ++ moments ∧
      (∀ moment ∈ moments, before.level ≤ moment.level) ∧
      P before.reader (moments.filter (·.level == before.level)) after.reader

/-- **What happened on a session's own document** since an earlier time: what `ownMoments` shows
more than it did then. -/
def since (after before : Session ι σ ε) : List (Moment ι ε) :=
  after.ownMoments.drop before.ownMoments.length

section Follows

variable {P : Course ι ε} {before between after : Session ι σ ε}

/-- Moments of the session's own document are a stretch of work on it: nothing is passed over. -/
theorem Follows.of_own (moments : List (Moment ι ε)) (hlevel : after.level = before.level)
    (htrace : after.trace.toList = before.trace.toList ++ moments)
    (hown : ∀ moment ∈ moments, moment.level = before.level)
    (h : P before.reader moments after.reader) : before.Follows P after := by
  refine ⟨hlevel, moments, htrace, fun moment hm => Nat.le_of_eq (hown moment hm).symm, ?_⟩
  rw [List.filter_eq_self.mpr fun moment hm => by simp [hown moment hm]]
  exact h

/-- **Work between own moments.** What holds of a stretch `front ++ (inner ++ back)`, with own
moments in front of it and behind it, follows from what holds of `inner`. -/
theorem Follows.around {Q : Course ι ε} {first last : Session ι σ ε} (h : first.Follows Q last)
    (front back : List (Moment ι ε))
    (hfirst : first.level = before.level) (hlast : after.level = last.level)
    (hfront : first.trace.toList = before.trace.toList ++ front)
    (hback : after.trace.toList = last.trace.toList ++ back)
    (hfrontOwn : ∀ moment ∈ front, moment.level = before.level)
    (hbackOwn : ∀ moment ∈ back, moment.level = before.level)
    (hall : ∀ inner, Q first.reader inner last.reader →
      P before.reader (front ++ (inner ++ back)) after.reader) : before.Follows P after := by
  obtain ⟨hlevel, inner, htrace, hle, hinner⟩ := h
  refine ⟨by rw [hlast, hlevel, hfirst], front ++ (inner ++ back), ?_, ?_, ?_⟩
  · rw [hback, htrace, hfront]
    simp only [List.append_assoc]
  · intro moment hm
    rcases List.mem_append.mp hm with hm | hm
    · exact Nat.le_of_eq (hfrontOwn moment hm).symm
    · rcases List.mem_append.mp hm with hm | hm
      · exact hfirst ▸ hle moment hm
      · exact Nat.le_of_eq (hbackOwn moment hm).symm
  · have hfrontSelf : front.filter (·.level == before.level) = front :=
      List.filter_eq_self.mpr fun moment hm => by simp [hfrontOwn moment hm]
    have hbackSelf : back.filter (·.level == before.level) = back :=
      List.filter_eq_self.mpr fun moment hm => by simp [hbackOwn moment hm]
    rw [List.filter_append, List.filter_append, hfrontSelf, hbackSelf, ← hfirst]
    exact hall _ hinner

/-- **A followed course holds of what happened since**:
`P before.reader (after.since before) after.reader`. -/
theorem Follows.since (h : before.Follows P after) :
    P before.reader (after.since before) after.reader := by
  obtain ⟨hlevel, moments, htrace, -, hcourse⟩ := h
  have hown : after.ownMoments =
      before.ownMoments ++ moments.filter (·.level == before.level) := by
    rw [ownMoments, ownMoments, htrace, hlevel, List.filter_append]
  rwa [Session.since, hown, List.drop_left]

/-- **One stretch after another**, each with a course of its own: `P` of the first, `Q` of the
second, and `R` of both together. -/
theorem Follows.append {Q R : Course ι ε} (h₁ : before.Follows P between)
    (h₂ : between.Follows Q after)
    (hall : ∀ first second, P before.reader first between.reader →
      Q between.reader second after.reader → R before.reader (first ++ second) after.reader) :
    before.Follows R after := by
  obtain ⟨hlevel₁, first, htrace₁, hle₁, hfirst⟩ := h₁
  obtain ⟨hlevel₂, second, htrace₂, hle₂, hsecond⟩ := h₂
  refine ⟨hlevel₂.trans hlevel₁, first ++ second, ?_, ?_, ?_⟩
  · rw [htrace₂, htrace₁, List.append_assoc]
  · intro moment hm
    rcases List.mem_append.mp hm with hm | hm
    · exact hle₁ moment hm
    · exact hlevel₁ ▸ hle₂ moment hm
  · rw [List.filter_append]
    -- the moments of both stretches are filtered by one level
    rw [hlevel₁] at hsecond
    exact hall _ _ hfirst hsecond

/-- A course that implies another one. -/
theorem Follows.imp {Q : Course ι ε} (h : before.Follows P after)
    (himp : ∀ moments, P before.reader moments after.reader →
      Q before.reader moments after.reader) : before.Follows Q after := by
  obtain ⟨hlevel, moments, htrace, hle, hcourse⟩ := h
  exact ⟨hlevel, moments, htrace, hle, himp _ hcourse⟩

/-- Nothing happens. -/
theorem Follows.of_nil (session : Session ι σ ε) (h : P session.reader [] session.reader) :
    session.Follows P session :=
  .of_own [] rfl (List.append_nil _).symm (fun _ hm => absurd hm List.not_mem_nil) h

end Follows

/-! ## The steps of a session -/

@[simp] theorem reader_openNode (session : Session ι σ ε) (tag : Tag) :
    (session.openNode tag).1.reader = session.reader.passTag tag := by
  simp [openNode, Reader.openNode]

@[simp] theorem level_openNode (session : Session ι σ ε) (tag : Tag) :
    (session.openNode tag).1.level = session.level := by
  simp [openNode]

@[simp] theorem trace_openNode (session : Session ι σ ε) (tag : Tag) :
    (session.openNode tag).1.trace.toList = session.trace.toList ++
      Moment.logs session.level (session.reader.passTag tag)
        (session.reader.openNode tag).2.log := by
  simp [openNode, Reader.openNode]

@[simp] theorem reader_readBody (session : Session ι σ ε) (node : Node) :
    (session.readBody node).1.reader = (session.reader.readBody node).1 := by
  simp [readBody]

@[simp] theorem reader_skip (session : Session ι σ ε) (node : Node) :
    (session.skip node).1.reader = (session.reader.readBody node).1 := by
  simp [skip]

/-- With room for it, opening a scope is one event, which shows the reader with the scope pushed. -/
theorem trace_enterScope {session : Session ι σ ε} {element : Option Node}
    (room : session.reader.depth < session.reader.options.maxDepth) :
    (session.enterScope element).1.trace.toList = session.trace.toList ++
      [⟨session.level, session.reader.pushScope element,
        .log (.enterScope (Scope.of element).element session.reader.depth)⟩] := by
  simp [enterScope, Reader.enterScope, Nat.not_le.mpr room, Reader.pushScope, Moment.logs]

/-- A single event follows when the course holds of it, wherever it has moved the reader. -/
theorem follows_record {P : Course ι ε} {session : Session ι σ ε} {reader : Reader}
    {event : Event ι ε} (hone : P session.reader [⟨session.level, reader, event⟩] reader) :
    session.Follows P ({ session with reader }.record event) := by
  refine .of_own [⟨session.level, reader, event⟩] rfl ?_ ?_ hone
  · simp
  · simp

end Session

namespace Session

section Steps

variable {P : Course ι ε} {session : Session ι σ ε} {node : Node}

/-- Reading a body is a step that reports its result: its moments are `Moment.reported` with a
`.body` event. -/
theorem follows_readBody (h : P session.reader
      (Moment.reported session.level (session.reader.readBody node).1
        (session.reader.readBody node).2 (.body node)) (session.reader.readBody node).1) :
    session.Follows P (session.readBody node).1 := by
  refine .of_own (Moment.reported session.level (session.reader.readBody node).1
    (session.reader.readBody node).2 (.body node)) ?_ ?_ (fun _ => Moment.level_of_mem_reported) ?_
  · simp [Session.readBody]
  · simp [Session.readBody, Moment.reported]
  · simpa [Session.readBody] using h

/-- Skipping what is left of a node is a step that reports its result: its moments are
`Moment.reported` with a `.skip` event. -/
theorem follows_skip (h : P session.reader
      (Moment.reported session.level (session.reader.readBody node).1
        (session.reader.readBody node).2 (.skip node)) (session.reader.readBody node).1) :
    session.Follows P (session.skip node).1 := by
  refine .of_own (Moment.reported session.level (session.reader.readBody node).1
    (session.reader.readBody node).2 (.skip node)) ?_ ?_ (fun _ => Moment.level_of_mem_reported) ?_
  · simp [Session.skip]
  · simp [Session.skip, Moment.reported]
  · simpa [Session.skip] using h

/-- A tag that is opened logs what decoding logs, when the reader has passed the tag. -/
theorem follows_openNode {tag : Tag} (h : P session.reader
      (Moment.logs session.level (session.reader.passTag tag) (session.reader.openNode tag).2.log)
      (session.reader.passTag tag)) : session.Follows P (session.openNode tag).1 := by
  refine .of_own _ (level_openNode session tag) (trace_openNode session tag)
    (fun _ => Moment.level_of_mem_logs) ?_
  rw [reader_openNode]
  exact h

/-- Skipping what is left of a child is just that. -/
theorem skipping (session : Session ι σ ε) (child : Node) :
    session.Follows (Course.Skipping session.level child) (session.skip child).1 :=
  follows_skip ⟨rfl, rfl⟩

end Steps

/-- **Work in a scope follows** as soon as the work inside it does: if that follows `Q`, all of it
follows `Course.Scoped Q`. -/
theorem follows_withScope {Q : Course ι ε} {session after : Session ι σ ε} {element : Option Node}
    {result : Except Fault Unit}
    {work : Session ι σ ε → Outcome ι σ ε (Except Fault Unit)}
    (hwork : ∀ (worked : Session ι σ ε), work (session.enterScope element).1 =
      some (worked, result) → (session.enterScope element).1.Follows Q worked)
    (hrun : session.withScope element work = some (after, result)) :
    session.Follows
      (fun reader inner after => Course.Scoped Q session.level element reader inner after result)
      after := by
  rcases withScope_eq_some hrun with ⟨hfull, rfl, rfl⟩ | ⟨hroom, worked, hdone, rfl⟩
  · -- the scope is refused, and refusing it is all that happens
    refine .of_own [⟨session.level, session.reader, .log (.scopesFull session.reader.depth)⟩]
      (level_log _ _) (trace_log _ _) ?_ ?_
    · simp
    · rw [reader_log]
      exact .refused hfull
  · have hreader : (session.enterScope element).1.reader = session.reader.pushScope element :=
      reader_enterScope hroom
    have hlevel : (session.enterScope element).1.level = session.level := level_step _ _
    -- two records about the scope stand around the work
    have hworked := hwork worked hdone
    refine hworked.around
      [⟨session.level, session.reader.pushScope element,
        .log (.enterScope (Scope.of element).element session.reader.depth)⟩]
      [⟨session.level, worked.reader.leaveScope.1, .log worked.reader.leaveScope.2⟩]
      hlevel ?_ ?_ ?_ ?_ ?_ ?_
    · simp [Session.leaveScope]
    · rw [trace_enterScope hroom]
    · simp [Session.leaveScope, Moment.logs, hworked.1]
    · simp
    · simp
    · intro inner hinner
      rw [hreader] at hinner
      simpa [Session.leaveScope] using
        Course.Scoped.entered result hroom hinner

end Session

/-- **Whatever visitors do follows a course**: with every node, and in every session. -/
def Act.Follows (act : Act ι σ ε) (P : Course ι ε) : Prop :=
  ∀ visitor node (session after : Session ι σ ε) result,
    act visitor node session = some (after, result) → session.Follows P after

/-! ## Work on children and on root elements -/

namespace Act.Follows

open Session Course

variable {P : Course ι ε} {act : Act ι σ ε} {visitor : ι} {session after : Session ι σ ε}
  (hact : act.Follows P)

include hact

/-- **A node that is opened and visited follows** `Course.Visiting P`, when the visitor's work
follows `P`. -/
theorem visiting {tag : Tag} {node : Node} {answer : Except Fault Signal}
    (hnext : session.reader.cursor.nextTag = .ok tag)
    (hkind : session.reader.cursor.kindOf tag = .element)
    (hopen : (session.openNode tag).2 = .ok node)
    (hrun : (session.openNode tag).1.visit act visitor node tag session.reader.position =
      some (after, answer)) :
    session.Follows (Visiting P session.level · node answer · ·) after := by
  obtain ⟨worked, hwork, rfl⟩ := visit_eq_some.mp hrun
  have hworked := hact _ _ _ _ _ hwork
  have hlevel : worked.level = session.level := by
    rw [hworked.1, level_record, level_openNode]
  -- around the visitor's work stand the opening of the tag, the visit, and its end
  refine hworked.around
    (Moment.logs session.level (session.reader.passTag tag)
        (session.reader.openNode tag).2.log ++
      [⟨session.level, session.reader.passTag tag,
        .visit visitor node tag session.reader.position⟩])
    [⟨session.level, worked.reader, .visited node answer⟩] ?_ rfl ?_ ?_ ?_ ?_ ?_
  · rw [level_record, level_openNode]
  · simp
  · simp [hlevel]
  · intro moment hm
    rcases List.mem_append.mp hm with hm | hm
    · exact Moment.level_of_mem_logs hm
    · rw [List.mem_singleton.mp hm]
  · intro moment hm
    rw [List.mem_singleton.mp hm]
  · intro inner hinner
    rw [reader_record, reader_openNode] at hinner
    rw [List.append_assoc]
    exact .visited visitor hnext hkind hopen hinner

/-- A tag among the children that ends their enumeration: one of the cases `missing`, `closed`,
`broken`, `ended` and `unread`. -/
theorem enumerating_of_finished {parent : Node} {result : Except Fault Unit}
    (hstep : session.childStep act parent visitor = some (after, .finished result)) :
    session.Follows (Enumerating P session.level parent) after := by
  rcases childStep_eq_some hstep with ⟨fault, hnext, rfl, -⟩ | ⟨tag, hnext, hcase⟩
  · exact .of_nil _ (.missing hnext)
  · rcases hcase with ⟨hkind, rfl, -⟩ | ⟨-, -, hprogress⟩ | ⟨hkind, hvisited⟩
    · exact follows_record (.closed hnext hkind)
    · cases hprogress
    · rcases hvisited with ⟨fault, hvisit, -⟩ | ⟨visited, child, signal, hvisit, hafter⟩
      · rcases visitTag_eq_error hvisit with ⟨hopen, rfl⟩ | ⟨node, hopen, hvisit⟩
        · exact follows_openNode (.broken hnext hkind hopen)
        · exact (hact.visiting hnext hkind hopen hvisit).imp fun _ hvisiting =>
            .ended hvisiting (by simp)
      · obtain ⟨hopen, hvisit⟩ := visitTag_eq_ok hvisit
        have hvisiting := hact.visiting hnext hkind hopen hvisit
        -- the visitor stops the enumeration, or what it left of the child cannot be skipped
        rcases visited.afterVisit_cases child signal with
          ⟨rfl, hstop⟩ | ⟨-, -, hmore⟩ | ⟨rfl, hclosed, ⟨fault, hread, hskip⟩ | ⟨_, -, hmore⟩⟩
        · obtain ⟨rfl, -⟩ := Prod.mk.inj (hstop.symm.trans hafter)
          exact hvisiting.imp fun _ hvisiting => .ended hvisiting (by simp)
        · cases (Prod.mk.inj (hmore.symm.trans hafter)).2
        · obtain ⟨rfl, -⟩ := Prod.mk.inj (hskip.symm.trans hafter)
          refine hvisiting.append (hvisiting.1 ▸ skipping visited child) ?_
          rintro moments _ hvisiting ⟨rfl, hskipped⟩
          rw [hskipped]
          exact .unread hvisiting hclosed hread
        · cases (Prod.mk.inj (hmore.symm.trans hafter)).2

/-- A tag among the children behind which their enumeration goes on: one of the cases `markup`,
`skipped` and `passed`. -/
theorem enumerating_of_more {parent : Node} {stepped : Session ι σ ε}
    (hstep : session.childStep act parent visitor = some (stepped, .more))
    (hrest : stepped.Follows (Enumerating P stepped.level parent) after) :
    session.Follows (Enumerating P session.level parent) after := by
  rcases childStep_eq_some hstep with ⟨_, -, -, hprogress⟩ | ⟨tag, hnext, hcase⟩
  · cases hprogress
  · rcases hcase with ⟨-, -, hprogress⟩ | ⟨hkind, rfl, -⟩ | ⟨hkind, hvisited⟩
    · cases hprogress
    · have hlog : session.Follows (fun before moments passed => passed = before.passTag tag ∧
          moments = [⟨session.level, passed, .log (.skippingDeclaration tag.start)⟩])
          (session.skipMarkup tag) := follows_record ⟨rfl, rfl⟩
      refine hlog.append (hlog.1 ▸ hrest) ?_
      rintro _ rest ⟨hpassed, rfl⟩ hrest
      rw [hpassed] at hrest ⊢
      exact .markup hnext hkind hrest
    · rcases hvisited with ⟨_, -, hprogress⟩ | ⟨visited, child, signal, hvisit, hafter⟩
      · cases hprogress
      · obtain ⟨hopen, hvisit⟩ := visitTag_eq_ok hvisit
        have hvisiting := hact.visiting hnext hkind hopen hvisit
        have hlevel := hvisiting.1
        -- of the four ways to go on behind a visit, two end the enumeration
        rcases visited.afterVisit_cases child signal with
          ⟨-, hstop⟩ | ⟨rfl, hclosed, hmore⟩ | ⟨rfl, hclosed, ⟨_, -, hskip⟩ | ⟨body, hread, hmore⟩⟩
        · cases (Prod.mk.inj (hstop.symm.trans hafter)).2
        · obtain ⟨rfl, -⟩ := Prod.mk.inj (hmore.symm.trans hafter)
          exact hvisiting.append (hlevel ▸ hrest) fun _ _ hvisiting hrest =>
            .passed hvisiting hclosed hrest
        · cases (Prod.mk.inj (hskip.symm.trans hafter)).2
        · obtain ⟨rfl, -⟩ := Prod.mk.inj (hmore.symm.trans hafter)
          have hskipping := skipping visited child
          refine (hvisiting.append (hlevel ▸ hskipping) (R := fun before moments skipped =>
            ∃ first second, moments = first ++ second ∧
              Visiting P session.level before child (.ok .proceed) first visited.reader ∧
              Skipping session.level child visited.reader second skipped) ?_).append
              ((hskipping.1.trans hlevel) ▸ hrest) ?_
          · exact fun first second hfirst hsecond => ⟨first, second, rfl, hfirst, hsecond⟩
          · rintro _ rest ⟨first, second, rfl, hfirst, rfl, hskipped⟩ hrest
            rw [hskipped] at hrest ⊢
            rw [List.append_assoc]
            exact .skipped hfirst hclosed hread hrest

/-- **The children of a node follow** `Course.Enumerating P`, by induction on how many tags are
looked at. -/
theorem enumerating {parent : Node} {fuel : Nat} {result : Except Fault Unit}
    (hrun : scanChildren act parent visitor fuel session = some (after, result)) :
    session.Follows (Enumerating P session.level parent) after := by
  induction fuel generalizing session with
  | zero => cases hrun
  | succ fuel ih =>
    rcases scanChildren_eq_some hrun with hstep | ⟨stepped, hstep, hrest⟩
    · exact hact.enumerating_of_finished hstep
    · exact hact.enumerating_of_more hstep (ih hrest)

/-- The root element follows `Course.RootVisiting P`, when the next tag is no declaration. -/
theorem rootVisiting {result : Except Fault Unit}
    (hmarkup : ∀ tag, session.reader.cursor.nextTag = .ok tag →
      session.reader.cursor.kindOf tag ≠ .markup)
    (hrun : session.visitRoot act visitor = some (after, result)) :
    session.Follows (RootVisiting P session.level) after := by
  rcases visitRoot_eq_some hrun with ⟨_, -, rfl, -⟩ | ⟨tag, hnext, hcase⟩
  · exact .of_nil _ .missing
  · rcases hcase with ⟨-, rfl, -⟩ | ⟨hclosing, answer, hvisit, -⟩
    · exact .of_nil _ .missing
    · -- the prolog has passed the markup, so only an element is left
      have hkind : session.reader.cursor.kindOf tag = .element := by
        cases hkind : session.reader.cursor.kindOf tag with
        | markup => exact absurd hkind (hmarkup tag hnext)
        | closing => exact absurd hkind hclosing
        | element => rfl
      rcases visitTag_eq_some hvisit with ⟨_, hopen, rfl, -⟩ | ⟨node, answer, hopen, hvisit, -⟩
      · exact follows_openNode (.broken hnext hkind hopen)
      · exact (hact.visiting hnext hkind hopen hvisit).imp fun _ hvisiting => .visited hvisiting

/-- **The work of a parse follows** `Course.Rooted`: behind a prolog, the next tag is no
declaration. -/
theorem rooted {result : Except Fault Unit}
    (hrun : session.root act visitor = some (after, result)) :
    session.Follows (fun reader inner after =>
      Rooted (RootVisiting P session.level) session.level reader inner after result) after := by
  have hreader : session.skipProlog.1.reader = behindProlog session.reader := by
    simp [Session.skipProlog, behindProlog]
  have hlevel : session.skipProlog.1.level = session.level := level_step _ _
  have htrace : session.skipProlog.1.trace.toList = session.trace.toList ++
      Moment.logs session.level (behindProlog session.reader)
        session.reader.cursor.skipProlog.2.log := trace_step _ _
  rcases root_eq_some hrun with ⟨fault, hskipped, rfl, rfl⟩ | ⟨hskipped, hcase⟩
  · refine .of_own _ hlevel htrace (fun _ => Moment.level_of_mem_logs) ?_
    rw [hreader]
    exact .broken hskipped
  · rcases hcase with ⟨heof, rfl, rfl⟩ | ⟨hmore, hscope⟩
    · -- the end of the document is logged behind what the prolog logs
      rw [hreader] at heof
      refine .of_own (Moment.logs session.level (behindProlog session.reader)
        (session.reader.cursor.skipProlog.2.log ++ [.noRootElement])) ?_ ?_
        (fun _ => Moment.level_of_mem_logs) ?_
      · rw [level_log, hlevel]
      · rw [trace_log, htrace, hreader, hlevel, List.append_assoc]
        simp [Moment.logs]
      · rw [reader_log, hreader]
        exact .empty hskipped heof
    · have hentered : (session.skipProlog.1.enterScope none).1.level = session.level :=
        (level_step _ _).trans hlevel
      have hscoped := follows_withScope (Q := RootVisiting P session.level) (fun _ hdone => ?_) hscope
      · rw [hreader] at hmore
        refine hscoped.around _ [] hlevel rfl htrace
          (List.append_nil _).symm (fun _ => Moment.level_of_mem_logs)
          (fun _ hm => absurd hm List.not_mem_nil) ?_
        intro inner hinner
        rw [hreader, hlevel] at hinner
        rw [List.append_nil]
        exact .element hskipped hmore hinner
      · rw [← hentered]
        refine hact.rootVisiting ?_ hdone
        intro tag hnext
        have hcursor : (session.skipProlog.1.enterScope none).1.reader.cursor =
            session.reader.cursor.skipProlog.1 := by
          rw [Session.enterScope, reader_step, hreader, Reader.enterScope]
          split <;> rfl
        rw [hcursor] at hnext ⊢
        obtain ⟨next, hnext', -, hkind⟩ := Cursor.exists_nextTag_skipProlog hskipped
          (by rw [← hmore, hreader]; rfl)
        rw [hnext, Except.ok.injEq] at hnext'
        exact hnext' ▸ hkind

end Act.Follows

/-! ## Descents, parses and scripts -/

namespace Course.Composed

open Session

variable {P : Course ι ε} (h : P.Composed) {act : Act ι σ ε} {visitor : ι}
  {session after : Session ι σ ε}

include h

/-- **A descent follows**, by what `Composed` says of descents. -/
theorem follows_descend (hact : act.Follows P) {fuel : Nat} {parent : Node}
    {result : Except Fault Unit}
    (hrun : session.descend act fuel parent visitor = some (after, result)) :
    session.Follows P after := by
  obtain ⟨worked, hchildren, rfl⟩ := descend_eq_some hrun
  cases hclosed : parent.selfClosing with
  -- no scope is opened, and the two events of the descent are all
  | true =>
    rw [children_of_selfClosing hclosed] at hchildren
    cases hchildren
    refine .of_own [⟨session.level, session.reader, .descend parent visitor⟩,
      ⟨session.level, session.reader.markClosed parent, .descended parent (.ok ())⟩]
      rfl ?_ ?_ ?_
    · simp [Session.record]
    · simp
    · exact h.descendEmpty session.level session.reader visitor hclosed
  -- the enumeration in its scope, with the two events of the descent around it
  | false =>
    rw [children_of_open hclosed] at hchildren
    have hentered : ((session.record (.descend parent visitor)).enterScope (some parent)).1.level =
        session.level := level_step _ _
    have hscoped := follows_withScope (Q := Enumerating P session.level parent)
      (fun _ hdone => hentered ▸ hact.enumerating hdone) hchildren
    have hlevel : worked.level = session.level := by rw [hscoped.1, level_record]
    refine hscoped.around
      [⟨session.level, session.reader, .descend parent visitor⟩]
      [⟨session.level, worked.reader, .descended parent result⟩]
      (level_record _ _) rfl (trace_record _ _) ?_ ?_ ?_ ?_
    · rw [trace_record, hlevel]
    · simp
    · simp
    · intro inner hinner
      exact h.descend session.level visitor hclosed hinner

/-- **A parse follows**, by what `Composed` says of parses. -/
theorem follows_parse (hact : act.Follows P) {result : Except Fault Unit}
    (hrun : session.parse act visitor = some (after, result)) : session.Follows P after := by
  obtain ⟨worked, hroot, rfl⟩ := parse_eq_some hrun
  have hrooted := hact.rooted hroot
  have hlevel : worked.level = session.level := hrooted.1
  refine hrooted.around
    [⟨session.level, session.reader.dropScopes, .parse visitor⟩]
    [⟨session.level, worked.reader, .parsed result⟩] rfl rfl (trace_record _ _) ?_ ?_ ?_ ?_
  · rw [trace_record, hlevel]
  · simp
  · simp
  · intro inner hinner
    exact h.parse session.level visitor hinner

/-- Reading another document leaves this one alone: its moments have a greater `level`, and are
passed over. -/
theorem follows_parseOther (hact : act.Follows P) {document : Bytes} {result : Except Fault Unit}
    (hrun : session.parseOther act document visitor = some (after, result)) :
    session.Follows P after := by
  obtain ⟨inner, hinner, rfl⟩ := parseOther_eq_some hrun
  obtain ⟨hlevel, moments, htrace, hle, -⟩ := h.follows_parse hact hinner
  refine ⟨rfl, moments, htrace, ?_, ?_⟩
  · intro moment hm
    exact Nat.le_of_succ_le (hle moment hm)
  · -- all that happened there is deeper than this document
    have hother : moments.filter (·.level == session.level) = [] := by
      rw [List.filter_eq_nil_iff]
      intro moment hm
      have hdeep : session.level + 1 ≤ moment.level := hle moment hm
      simp only [beq_iff_eq]
      omega
    rw [hother]
    exact h.nil session.reader

/-- **A script follows** when the visitors it calls do, request by request, with `Composed.append`
between the requests. -/
theorem follows_run {fuel : Nat} (hact : act.Follows P) {script : Script ι σ ε α}
    {session after : Session ι σ ε} {value : α}
    (hrun : script.run act fuel session = some (after, value)) : session.Follows P after := by
  induction script generalizing session with
  | done value =>
    cases hrun
    exact .of_nil _ (h.nil _)
  | readBody node next ih =>
    exact (follows_readBody (h.readBody session.level session.reader node)).append (ih _ hrun)
      fun _ _ => h.append
  | descend parent visitor next ih =>
    rw [Script.run] at hrun
    split at hrun
    · cases hrun
    · rename_i hdescend
      exact (h.follows_descend hact hdescend).append (ih _ hrun) fun _ _ => h.append
  | parse visitor next ih =>
    rw [Script.run] at hrun
    split at hrun
    · cases hrun
    · rename_i hparse
      exact (h.follows_parse hact hparse).append (ih _ hrun) fun _ _ => h.append
  | parseOther document visitor next ih =>
    rw [Script.run] at hrun
    split at hrun
    · cases hrun
    · rename_i hparse
      exact (h.follows_parseOther hact hparse).append (ih _ hrun) fun _ _ => h.append
  | reset next ih =>
    exact (follows_record (h.reset session.level session.reader)).append (ih hrun)
      fun _ _ => h.append
  -- of the last four requests, only a remark makes a moment
  | inspect next ih => exact ih _ hrun
  | get next ih => exact ih _ hrun
  | set state next ih =>
    have hset : session.Follows P { session with state } :=
      .of_own [] rfl (List.append_nil _).symm (fun _ hm => absurd hm List.not_mem_nil) (h.nil _)
    exact hset.append (ih hrun) fun _ _ => h.append
  | remark note next ih =>
    exact (follows_record (h.remark session.level session.reader note)).append (ih hrun)
      fun _ _ => h.append

/-- **What visitors do follows every composed course**, by induction on the fuel: visitors that are
called by visitors have less. So for a `P` that is `Composed` nothing need be said about visitors at
all. -/
theorem follows_perform (cast : Cast ι σ ε) (fuel : Nat) : (perform cast fuel).Follows P := by
  induction fuel with
  | zero =>
    intro visitor node session after result hrun
    cases hrun
  | succ fuel ih =>
    intro visitor node session after result hrun
    exact h.follows_run ih hrun

end Course.Composed

end TagWalk
