import TagWalk.Proofs.Checked
import TagWalk.Proofs.Source

/-! # Checked runs

A whole traversal with every operation checked: the functions of a traversal, with the checked
operations of a reader in the place of the others. A run comes to nothing at the first operation that
is impossible, which is not the same as running out of fuel.

* **`Checked.run`**, **`Checked.perform`** — scripts and visitors, with checks.
* **`Script.IsShort`** — scripts that read bodies of nodes with short names only.
* **`Checked.Agrees`** — checked work that is possible, and comes to what the work comes to.
* **`checked_run`** — no run over a short document does anything impossible. -/

namespace TagWalk

variable {ι σ ε α β : Type}

namespace Checked

/-! ## Traversals with checks -/

/-- What a visitor's work on a node comes to, with checks: `none` where something is impossible, and
`some none` out of fuel. -/
abbrev Work (ι σ ε : Type) :=
  ι → Node → Session ι σ ε → Checked (Outcome ι σ ε (Except Fault Signal))

/-- Go on behind work that did not run out of fuel, and leave `some none` as it is. -/
def andThen (first : Checked (Outcome ι σ ε α))
    (next : Session ι σ ε → α → Checked (Outcome ι σ ε β)) : Checked (Outcome ι σ ε β) := do
  match ← first with
  | none => some none
  | some (session, value) => next session value

/-- The checked `Session.step`, for an operation that is checked. -/
def step (session : Session ι σ ε) (operation : Reader → Checked (Reader × Logged α)) :
    Checked (Session ι σ ε × Except Fault α) := do
  let (reader, logged) ← operation session.reader
  some ({ session with reader }.log logged.log, logged.result)

/-- The checked `Session.readBody`. -/
def read (session : Session ι σ ε) (node : Node) : Checked (Session ι σ ε × Except Fault Bytes) := do
  let (session, result) ← step session (readBody · node)
  some (session.record (.body node result), result)

/-- The checked `Session.skip`. -/
def skip (session : Session ι σ ε) (node : Node) : Checked (Session ι σ ε × Except Fault Bytes) := do
  let (session, result) ← step session (readBody · node)
  some (session.record (.skip node result), result)

/-- The checked `Session.visit`. -/
def visit (work : Work ι σ ε) (visitor : ι) (node : Node) (tag : Tag) (soughtFrom : Nat)
    (session : Session ι σ ε) : Checked (Outcome ι σ ε (Except Fault Signal)) :=
  andThen (work visitor node (session.record (.visit visitor node tag soughtFrom)))
    fun session result => some (some (session.record (.visited node result), result))

/-- The checked `Session.visitTag`. -/
def visitTag (work : Work ι σ ε) (visitor : ι) (tag : Tag) (session : Session ι σ ε) :
    Checked (Outcome ι σ ε (Except Fault (Node × Signal))) := do
  let soughtFrom := session.reader.position
  match ← step session (openNode · tag) with
  | (session, .error fault) => some (some (session, .error fault))
  | (session, .ok node) =>
      andThen (visit work visitor node tag soughtFrom session) fun session result =>
        some (some (session, result.map (node, ·)))

/-- The checked `Session.afterVisit`. -/
def afterVisit (child : Node) (signal : Signal) (session : Session ι σ ε) :
    Checked (Session ι σ ε × Progress) :=
  match signal with
  | .stop => some (session, .finished (.ok ()))
  | .proceed =>
      if session.reader.isClosed child then some (session, .more)
      else do
        match ← skip session child with
        | (session, .error fault) => some (session, .finished (.error fault))
        | (session, .ok _) => some (session, .more)

/-- The checked `Session.childStep`. -/
def childStep (work : Work ι σ ε) (parent : Node) (visitor : ι) (session : Session ι σ ε) :
    Checked (Outcome ι σ ε Progress) := do
  match ← nextTag session.reader.cursor with
  | .error fault => some (some (session, .finished (.error fault)))
  | .ok tag =>
      match ← kindOf session.reader.cursor tag with
      | .closing => do
          let cursor ← passTag session.reader.cursor tag
          let reader := { session.reader with cursor }.markClosed parent
          some (some ({ session with reader }.record (.close parent tag), .finished (.ok ())))
      | .markup => do
          let cursor ← passTag session.reader.cursor tag
          let reader := { session.reader with cursor }
          some (some ({ session with reader }.log [.skippingDeclaration tag.start], .more))
      | .element =>
          andThen (visitTag work visitor tag session) fun session result =>
            match result with
            | .error fault => some (some (session, .finished (.error fault)))
            | .ok (child, signal) => do
                let stepped ← afterVisit child signal session
                some (some stepped)

/-- The checked `Session.scanChildren`. -/
def scanChildren (work : Work ι σ ε) (parent : Node) (visitor : ι) :
    Nat → Session ι σ ε → Checked (Outcome ι σ ε (Except Fault Unit))
  | 0, _ => some none
  | fuel + 1, session =>
      andThen (childStep work parent visitor session) fun session progress =>
        match progress with
        | .finished result => some (some (session, result))
        | .more => scanChildren work parent visitor fuel session

/-- The checked `Session.withScope`. -/
def withScope (element : Option Node) (session : Session ι σ ε)
    (inside : Session ι σ ε → Checked (Outcome ι σ ε (Except Fault Unit))) :
    Checked (Outcome ι σ ε (Except Fault Unit)) :=
  match session.enterScope element with
  | (session, .error fault) => some (some (session, .error fault))
  | (session, .ok ()) =>
      andThen (inside session) fun session result => some (some (session.leaveScope, result))

/-- The checked `Session.children`. -/
def children (work : Work ι σ ε) (fuel : Nat) (parent : Node) (visitor : ι)
    (session : Session ι σ ε) : Checked (Outcome ι σ ε (Except Fault Unit)) :=
  if parent.selfClosing then
    some (some ({ session with reader := session.reader.markClosed parent }, .ok ()))
  else withScope (some parent) session (scanChildren work parent visitor fuel)

/-- The checked `Session.descend`. -/
def descend (work : Work ι σ ε) (fuel : Nat) (parent : Node) (visitor : ι)
    (session : Session ι σ ε) : Checked (Outcome ι σ ε (Except Fault Unit)) :=
  andThen (children work fuel parent visitor (session.record (.descend parent visitor)))
    fun session result => some (some (session.record (.descended parent result), result))

/-- The checked `Session.visitRoot`. -/
def visitRoot (work : Work ι σ ε) (visitor : ι) (session : Session ι σ ε) :
    Checked (Outcome ι σ ε (Except Fault Unit)) := do
  match ← nextTag session.reader.cursor with
  | .error fault => some (some (session, .error fault))
  | .ok tag => do
      let kind ← kindOf session.reader.cursor tag
      if kind = .closing then some (some (session, .error (.unexpectedClosingTag tag.start)))
      else
        andThen (visitTag work visitor tag session) fun session result =>
          some (some (session, result.map fun _ => ()))

/-- The checked `Session.root`. -/
def root (work : Work ι σ ε) (visitor : ι) (session : Session ι σ ε) :
    Checked (Outcome ι σ ε (Except Fault Unit)) := do
  let skipped ← step session fun reader => do
    let (cursor, logged) ← skipProlog reader.cursor
    some ({ reader with cursor }, logged)
  match skipped with
  | (session, .error fault) => some (some (session, .error fault))
  | (session, .ok ()) =>
      if session.reader.isEof then some (some (session.log [.noRootElement], .ok ()))
      else withScope none session (visitRoot work visitor)

/-- The checked `Session.parse`. -/
def parse (work : Work ι σ ε) (visitor : ι) (session : Session ι σ ε) :
    Checked (Outcome ι σ ε (Except Fault Unit)) :=
  andThen (root work visitor (session.beginParse visitor)) fun session result =>
    some (some (session.record (.parsed result), result))

/-- The checked `Session.parseOther`. -/
def parseOther (work : Work ι σ ε) (document : Bytes) (visitor : ι) (session : Session ι σ ε) :
    Checked (Outcome ι σ ε (Except Fault Unit)) :=
  andThen (parse work visitor (session.nest document)) fun inner result =>
    some (some (inner.unnest session.reader session.level, result))

/-- The checked `Script.run`: wherever a script inspects the reader, what is left is sliced. -/
def run (work : Work ι σ ε) (fuel : Nat) :
    Script ι σ ε α → Session ι σ ε → Checked (Outcome ι σ ε α)
  | .done value, session => some (some (session, value))
  | .readBody node next, session => do
      let (session, result) ← read session node
      run work fuel (next result) session
  | .descend parent visitor next, session =>
      andThen (descend work fuel parent visitor session) fun session result =>
        run work fuel (next result) session
  | .parse visitor next, session =>
      andThen (parse work visitor session) fun session result =>
        run work fuel (next result) session
  | .parseOther document visitor next, session =>
      andThen (parseOther work document visitor session) fun session result =>
        run work fuel (next result) session
  | .reset next, session => run work fuel next session.reset
  | .inspect next, session => do
      let reader ← inspect session.reader
      run work fuel (next reader) session
  | .get next, session => run work fuel (next session.state) session
  | .set state next, session => run work fuel next { session with state }
  | .remark note next, session => run work fuel next (session.record (.remark note))

/-- The checked `TagWalk.perform`, with the fuel handed down in the same way. -/
def perform (cast : Cast ι σ ε) : Nat → Work ι σ ε
  | 0, _, _, _ => some none
  | fuel + 1, visitor, node, session => run (perform cast fuel) fuel (cast visitor node) session

end Checked

/-! ## Short scripts -/

/-- A script is **short** when it reads bodies of nodes with short names only, and has short
documents parsed. It may rely on being answered with short bodies, and on a property of the state
that it `keeps` itself. Offsets of nodes are not restricted. -/
def Script.IsShort (keeps : σ → Prop) : Script ι σ ε α → Prop
  | .done _ => True
  | .readBody node next =>
      node.name.IsShort ∧
        ∀ result, (∀ body, result = .ok body → body.IsShort) → (next result).IsShort keeps
  | .descend _ _ next => ∀ result, (next result).IsShort keeps
  | .parse _ next => ∀ result, (next result).IsShort keeps
  | .parseOther document _ next =>
      document.IsShort ∧ ∀ result, (next result).IsShort keeps
  | .reset next => next.IsShort keeps
  | .inspect next => ∀ reader, reader.document.IsShort → (next reader).IsShort keeps
  | .get next => ∀ state, keeps state → (next state).IsShort keeps
  | .set state next => keeps state ∧ next.IsShort keeps
  | .remark _ next => next.IsShort keeps

/-- **Visitors are short** when their scripts are for every node with a short name. -/
def Cast.IsShort (keeps : σ → Prop) (cast : Cast ι σ ε) : Prop :=
  ∀ visitor node, node.name.IsShort → (cast visitor node).IsShort keeps

/-- A session over a short document, in a state that the visitors keep. -/
structure Session.IsShort (keeps : σ → Prop) (session : Session ι σ ε) : Prop where
  /-- The document is short. -/
  document_isShort : session.reader.document.IsShort
  /-- The state is one that the visitors keep. -/
  keeps_state : keeps session.state

namespace Checked

/-! ## Work that is possible -/

/-- **Checked work agrees** with work without checks: `checked = some outcome`, so it is possible
and comes to the same, and if the fuel has not run out then `Q` holds of the session and the
value. -/
structure Agrees (Q : Session ι σ ε → α → Prop) (checked : Checked (Outcome ι σ ε α))
    (outcome : Outcome ι σ ε α) : Prop where
  /-- The checked work is possible, and comes to the same. -/
  eq_some : checked = some outcome
  /-- What holds in the end. -/
  holds : ∀ after value, outcome = some (after, value) → Q after value

namespace Agrees

variable {Q : Session ι σ ε → α → Prop} {R : Session ι σ ε → β → Prop}
  {checked : Checked (Outcome ι σ ε α)} {outcome : Outcome ι σ ε α}

/-- Work that comes to something. -/
theorem of_some {session : Session ι σ ε} {value : α} (h : Q session value) :
    Agrees Q (some (some (session, value))) (some (session, value)) := by
  refine ⟨rfl, fun after other heq => ?_⟩
  obtain ⟨rfl, rfl⟩ := Prod.mk.inj (Option.some.inj heq)
  exact h

/-- Work that ran out of fuel. -/
theorem of_none : Agrees Q (some none) none := ⟨rfl, nofun⟩

/-- **Work behind work** agrees if it does wherever the first work may have ended. `whole` is the
second work without checks, and `none` where the first one is. -/
theorem andThen {next : Session ι σ ε → α → Checked (Outcome ι σ ε β)} {whole : Outcome ι σ ε β}
    (h : Agrees Q checked outcome) (hnone : outcome = none → whole = none)
    (hnext : ∀ after value, outcome = some (after, value) → Q after value →
      Agrees R (next after value) whole) :
    Agrees R (Checked.andThen checked next) whole := by
  rw [h.eq_some]
  cases houtcome : outcome with
  | none =>
    rw [hnone houtcome]
    exact of_none
  | some reached =>
    obtain ⟨after, value⟩ := reached
    exact hnext after value houtcome (h.holds after value houtcome)

end Agrees

end Checked

namespace Session.IsShort

variable {keeps : σ → Prop} {session : Session ι σ ε}

/-- An event that is recorded leaves the reader where it is. -/
theorem record (h : session.IsShort keeps) (event : Event ι ε) :
    (session.record event).IsShort keeps := ⟨h.document_isShort, h.keeps_state⟩

/-- So do log records. -/
theorem log (h : session.IsShort keeps) (records : List LogRecord) :
    (session.log records).IsShort keeps := by
  refine ⟨?_, ?_⟩
  · rw [reader_log]
    exact h.document_isShort
  · rw [state_log]
    exact h.keeps_state

/-- A reader may move in its document. -/
theorem moved (h : session.IsShort keeps) {reader : Reader}
    (hdocument : reader.document = session.reader.document) :
    ({ session with reader } : Session ι σ ε).IsShort keeps :=
  ⟨show reader.document.IsShort from hdocument ▸ h.document_isShort, h.keeps_state⟩

/-- A step of a reader stays in its document. -/
theorem step (h : session.IsShort keeps) {operation : Reader → Reader × Logged α}
    (hdocument : (operation session.reader).1.document = session.reader.document) :
    (session.step operation).1.IsShort keeps := (h.moved hdocument).log _

end Session.IsShort

namespace Checked

section Traversal

variable {keeps : σ → Prop} {act : Act ι σ ε} {work : Work ι σ ε} {visitor : ι}
  {session : Session ι σ ε} {tag : Tag} {node child parent : Node}

/-- **Checked work that is safe**: it `Agrees` with the work without checks, and the session is over
a short document behind it as well. -/
abbrev Safe (keeps : σ → Prop) (checked : Checked (Outcome ι σ ε α)) (outcome : Outcome ι σ ε α) :
    Prop :=
  Agrees (fun after _ => after.IsShort keeps) checked outcome

/-- **Visitors are safe** with nodes that have short names, in sessions over short documents. This
is what the induction on the fuel carries. -/
def WorksFor (keeps : σ → Prop) (work : Work ι σ ε) (act : Act ι σ ε) : Prop :=
  ∀ visitor node (session : Session ι σ ε), node.name.IsShort → session.IsShort keeps →
    Safe keeps (work visitor node session) (act visitor node session)

/-- A step of a reader is possible if the operation is. -/
theorem step_eq {operation : Reader → Checked (Reader × Logged α)}
    {operation' : Reader → Reader × Logged α}
    (h : operation session.reader = some (operation' session.reader)) :
    step session operation = some (session.step operation') := by
  unfold step Session.step
  simp only [h, Option.bind_eq_bind, Option.bind_some]

/-- **Reading a body** is possible for every node with a short name, whatever it is read for, and
the session stays over its document. -/
theorem step_readBody_eq (hsession : session.IsShort keeps) (hnode : node.name.IsShort) :
    step session (readBody · node) = some (session.step (·.readBody node)) ∧
      (session.step (·.readBody node)).1.IsShort keeps :=
  ⟨step_eq (readBody_eq hsession.document_isShort hnode),
    hsession.step (session.reader.document_readBody node)⟩

/-- A visitor may read it. -/
theorem read_eq (hsession : session.IsShort keeps) (hnode : node.name.IsShort) :
    read session node = some (session.readBody node) ∧ (session.readBody node).1.IsShort keeps := by
  obtain ⟨hstep, hread⟩ := step_readBody_eq hsession hnode
  refine ⟨?_, hread.record _⟩
  unfold read Session.readBody
  rw [hstep]
  rfl

/-- The reader may skip it. -/
theorem skip_eq (hsession : session.IsShort keeps) (hnode : node.name.IsShort) :
    skip session node = some (session.skip node) ∧ (session.skip node).1.IsShort keeps := by
  obtain ⟨hstep, hread⟩ := step_readBody_eq hsession hnode
  refine ⟨?_, hread.record _⟩
  unfold skip Session.skip
  rw [hstep]
  rfl

/-- **What follows a visit** is possible behind a node with a short name, as skipping it is. -/
theorem afterVisit_eq (hsession : session.IsShort keeps) (hchild : child.name.IsShort)
    (signal : Signal) :
    afterVisit child signal session = some (session.afterVisit child signal) ∧
      (session.afterVisit child signal).1.IsShort keeps := by
  obtain ⟨hskip, hskipped⟩ := skip_eq hsession hchild
  unfold afterVisit Session.afterVisit
  cases signal with
  | stop => exact ⟨rfl, hsession⟩
  | proceed =>
    dsimp only
    split
    · exact ⟨rfl, hsession⟩
    · rw [hskip]
      simp only [Option.bind_eq_bind, Option.bind_some]
      rcases hleft : session.skip child with ⟨left, fault | body⟩
      · rw [hleft] at hskipped
        exact ⟨rfl, hskipped⟩
      · rw [hleft] at hskipped
        exact ⟨rfl, hskipped⟩

/-- **A visit** is the visitor's work between two events. -/
theorem safe_visit (hwork : WorksFor keeps work act) (hsession : session.IsShort keeps)
    (hnode : node.name.IsShort) (soughtFrom : Nat) :
    Safe keeps (visit work visitor node tag soughtFrom session)
      (session.visit act visitor node tag soughtFrom) := by
  unfold visit Session.visit
  refine (hwork visitor node _ hnode (hsession.record _)).andThen (fun hnone => by rw [hnone])
    fun after result hsome hafter => ?_
  rw [hsome]
  exact .of_some (hafter.record _)

/-- **A tag is opened and its node visited**, and the node has a short name, since it stands in a
short document. -/
theorem agrees_visitTag (hwork : WorksFor keeps work act) (hsession : session.IsShort keeps)
    (hnext : session.reader.cursor.nextTag = .ok tag) :
    Agrees (fun after result => after.IsShort keeps ∧
        ∀ child signal, result = .ok (child, signal) → child.name.IsShort)
      (visitTag work visitor tag session) (session.visitTag act visitor tag) := by
  have hopen : step session (openNode · tag) = some (session.openNode tag) :=
    step_eq (openNode_eq hsession.document_isShort hnext)
  have hafter : (session.openNode tag).1.IsShort keeps := hsession.step rfl
  unfold visitTag Session.visitTag
  simp only [hopen, Option.bind_eq_bind, Option.bind_some]
  -- a tag that cannot be decoded is answered with its fault, and nobody is called
  rcases hopened : session.openNode tag with ⟨opened, fault | node⟩
  · rw [hopened] at hafter
    exact .of_some ⟨hafter, fun child signal heq => by cases heq⟩
  · rw [hopened] at hafter
    have hnode : node.name.IsShort :=
      isShort_of_openNode hsession.document_isShort (congrArg Prod.snd hopened)
    dsimp only
    refine (safe_visit hwork hafter hnode _).andThen (fun hnone => by rw [hnone])
      fun visited result hsome hvisited => ?_
    rw [hsome]
    refine .of_some ⟨hvisited, fun child signal heq => ?_⟩
    cases result with
    | error fault => cases heq
    | ok answer =>
      obtain ⟨rfl, -⟩ := Prod.mk.inj (Except.ok.inj heq)
      exact hnode

/-- **One tag among the children of a node**, be it missing, closing, markup or a child. -/
theorem safe_childStep (hwork : WorksFor keeps work act) (hsession : session.IsShort keeps) :
    Safe keeps (childStep work parent visitor session) (session.childStep act parent visitor) := by
  have hshort := hsession.document_isShort
  unfold childStep Session.childStep
  simp only [nextTag_eq hshort, Option.bind_eq_bind, Option.bind_some]
  cases hnext : session.reader.cursor.nextTag with
  | error fault => exact .of_some hsession
  | ok tag =>
    have hpass := passTag_eq hshort hnext
    simp only [kindOf_eq hshort hnext, Option.bind_some]
    cases hkind : session.reader.cursor.kindOf tag with
    -- a closing tag and markup are passed by the checked sum, and nothing else is done
    | closing =>
      simp only [hpass, Option.bind_some]
      refine .of_some (Session.IsShort.record ?_ _)
      exact hsession.moved rfl
    | markup =>
      simp only [hpass, Option.bind_some]
      refine .of_some (Session.IsShort.log ?_ _)
      exact hsession.moved rfl
    | element =>
      refine (agrees_visitTag hwork hsession hnext).andThen (fun hnone => by rw [hnone])
        fun visited result hsome hvisited => ?_
      obtain ⟨hvisited, hchild⟩ := hvisited
      rw [hsome]
      rcases result with fault | ⟨child, signal⟩
      · exact .of_some hvisited
      · obtain ⟨hafter, hdone⟩ := afterVisit_eq hvisited (hchild child signal rfl) signal
        simp only [hafter, Option.bind_some]
        exact .of_some hdone

/-- **The children of a node**, by induction on the fuel: each tag leaves a session over the same
short document. -/
theorem safe_scanChildren (hwork : WorksFor keeps work act) (fuel : Nat)
    (hsession : session.IsShort keeps) :
    Safe keeps (scanChildren work parent visitor fuel session)
      (Session.scanChildren act parent visitor fuel session) := by
  induction fuel generalizing session with
  | zero => exact .of_none
  | succ fuel ih =>
    rw [scanChildren, Session.scanChildren]
    refine (safe_childStep hwork hsession).andThen (fun hnone => by rw [hnone])
      fun stepped progress hsome hstepped => ?_
    rw [hsome]
    cases progress with
    | finished result => exact .of_some hstepped
    | more => exact ih hstepped

/-- **Work in a scope** is safe if the work inside is, wherever that begins. -/
theorem safe_withScope {inside : Session ι σ ε → Checked (Outcome ι σ ε (Except Fault Unit))}
    {inside' : Session ι σ ε → Outcome ι σ ε (Except Fault Unit)} (element : Option Node)
    (hsession : session.IsShort keeps)
    (hinside : ∀ entered : Session ι σ ε, entered.IsShort keeps →
      Safe keeps (inside entered) (inside' entered)) :
    Safe keeps (withScope element session inside) (session.withScope element inside') := by
  have hentered : (session.enterScope element).1.IsShort keeps := by
    refine hsession.step ?_
    unfold Reader.enterScope
    split <;> rfl
  unfold withScope Session.withScope
  rcases henter : session.enterScope element with ⟨entered, fault | ⟨⟩⟩
  · rw [henter] at hentered
    exact .of_some hentered
  · rw [henter] at hentered
    dsimp only
    refine (hinside entered hentered).andThen (fun hnone => by rw [hnone])
      fun after result hsome hafter => ?_
    rw [hsome]
    refine .of_some ((hafter.moved ?_).log _)
    exact congrArg Cursor.document after.reader.cursor_leaveScope

/-- **The children of a node**, in a scope of their own if it has any. -/
theorem safe_children (hwork : WorksFor keeps work act) (fuel : Nat)
    (hsession : session.IsShort keeps) :
    Safe keeps (children work fuel parent visitor session)
      (session.children act fuel parent visitor) := by
  unfold children Session.children
  split
  · exact .of_some (hsession.moved rfl)
  · exact safe_withScope _ hsession fun entered hentered => safe_scanChildren hwork fuel hentered

/-- **A descent** is safe, whatever node it is asked for. -/
theorem safe_descend (hwork : WorksFor keeps work act) (fuel : Nat)
    (hsession : session.IsShort keeps) :
    Safe keeps (descend work fuel parent visitor session)
      (session.descend act fuel parent visitor) := by
  unfold descend Session.descend
  refine (safe_children hwork fuel (hsession.record _)).andThen (fun hnone => by rw [hnone])
    fun after result hsome hafter => ?_
  rw [hsome]
  exact .of_some (hafter.record _)

/-- **The root element** is safe to visit, and its faults are the same. -/
theorem safe_visitRoot (hwork : WorksFor keeps work act) (hsession : session.IsShort keeps) :
    Safe keeps (visitRoot work visitor session) (session.visitRoot act visitor) := by
  have hshort := hsession.document_isShort
  unfold visitRoot Session.visitRoot
  simp only [nextTag_eq hshort, Option.bind_eq_bind, Option.bind_some]
  cases hnext : session.reader.cursor.nextTag with
  | error fault => exact .of_some hsession
  | ok tag =>
    simp only [kindOf_eq hshort hnext, Option.bind_some]
    split
    · exact .of_some hsession
    · refine (agrees_visitTag hwork hsession hnext).andThen (fun hnone => by rw [hnone])
        fun visited result hsome hvisited => ?_
      rw [hsome]
      exact .of_some hvisited.1

/-- The prolog is skipped. -/
theorem skip_prolog_eq (hsession : session.IsShort keeps) :
    step session (fun reader => do
        let (cursor, logged) ← skipProlog reader.cursor
        some ({ reader with cursor }, logged)) = some session.skipProlog ∧
      session.skipProlog.1.IsShort keeps := by
  refine ⟨step_eq ?_, hsession.step session.reader.cursor.document_skipProlog⟩
  rw [skipProlog_eq hsession.document_isShort]
  rfl

/-- **The work of a parse** is safe, prolog and root element. -/
theorem safe_root (hwork : WorksFor keeps work act) (hsession : session.IsShort keeps) :
    Safe keeps (root work visitor session) (session.root act visitor) := by
  obtain ⟨hskip, hskipped⟩ := skip_prolog_eq hsession
  unfold root Session.root
  rw [hskip]
  simp only [Option.bind_eq_bind, Option.bind_some]
  rcases hprolog : session.skipProlog with ⟨skipped, fault | ⟨⟩⟩
  · rw [hprolog] at hskipped
    exact .of_some hskipped
  · rw [hprolog] at hskipped
    dsimp only
    split
    · exact .of_some (hskipped.log _)
    · exact safe_withScope _ hskipped fun entered hentered => safe_visitRoot hwork hentered

/-- **A parse** is safe, from wherever the reader stands. -/
theorem safe_parse (hwork : WorksFor keeps work act) (hsession : session.IsShort keeps) :
    Safe keeps (parse work visitor session) (session.parse act visitor) := by
  have hbegun : (session.beginParse visitor).IsShort keeps :=
    ⟨hsession.document_isShort, hsession.keeps_state⟩
  unfold parse Session.parse
  refine (safe_root hwork hbegun).andThen (fun hnone => by rw [hnone])
    fun after result hsome hafter => ?_
  rw [hsome]
  exact .of_some (hafter.record _)

/-- **A parse of another document**, which is short as well. -/
theorem safe_parseOther (hwork : WorksFor keeps work act) {document : Bytes}
    (hdocument : document.IsShort) (hsession : session.IsShort keeps) :
    Safe keeps (parseOther work document visitor session)
      (session.parseOther act document visitor) := by
  have hnested : (session.nest document).IsShort keeps := ⟨hdocument, hsession.keeps_state⟩
  unfold parseOther Session.parseOther
  refine (safe_parse hwork hnested).andThen (fun hnone => by rw [hnone])
    fun inner result hsome hinner => ?_
  rw [hsome]
  exact .of_some ⟨hsession.document_isShort, hinner.keeps_state⟩

/-- **A short script is safe**, by induction on what it asks for. A body that it is answered with is
short, and its state is one that it `keeps`. -/
theorem safe_run (hwork : WorksFor keeps work act) (fuel : Nat) {script : Script ι σ ε α}
    (hscript : script.IsShort keeps) (hsession : session.IsShort keeps) :
    Safe keeps (run work fuel script session) (script.run act fuel session) := by
  induction script generalizing session with
  | done value => exact .of_some hsession
  | readBody node next ih =>
    obtain ⟨hnode, hnext⟩ := hscript
    obtain ⟨hread, hafter⟩ := read_eq hsession hnode
    rw [run, hread]
    exact ih _ (hnext _ fun body => isShort_of_readBody hsession.document_isShort) hafter
  | descend parent visitor next ih =>
    refine (safe_descend hwork fuel hsession).andThen (fun hnone => by rw [Script.run, hnone])
      fun after result hsome hafter => ?_
    rw [Script.run, hsome]
    exact ih result (hscript result) hafter
  | parse visitor next ih =>
    refine (safe_parse hwork hsession).andThen (fun hnone => by rw [Script.run, hnone])
      fun after result hsome hafter => ?_
    rw [Script.run, hsome]
    exact ih result (hscript result) hafter
  | parseOther document visitor next ih =>
    obtain ⟨hdocument, hnext⟩ := hscript
    refine (safe_parseOther hwork hdocument hsession).andThen
      (fun hnone => by rw [Script.run, hnone]) fun after result hsome hafter => ?_
    rw [Script.run, hsome]
    exact ih result (hnext result) hafter
  | reset next ih => exact ih hscript ⟨hsession.document_isShort, hsession.keeps_state⟩
  -- looking at a reader takes a slice and a difference, both of which are possible
  | inspect next ih =>
    rw [run, inspect_eq]
    exact ih _ (hscript _ hsession.document_isShort) hsession
  | get next ih => exact ih _ (hscript _ hsession.keeps_state) hsession
  | set state next ih => exact ih hscript.2 ⟨hsession.document_isShort, hscript.1⟩
  | remark note next ih => exact ih hscript (hsession.record _)

/-- **Short visitors are safe**, by induction on the fuel: `perform cast (fuel + 1)` calls visitors
with `fuel`. -/
theorem worksFor_perform {cast : Cast ι σ ε} (hcast : cast.IsShort keeps) (fuel : Nat) :
    WorksFor keeps (perform cast fuel) (TagWalk.perform cast fuel) := by
  induction fuel with
  | zero => exact fun _ _ _ _ _ => .of_none
  | succ fuel ih =>
    intro visitor node session hnode hsession
    exact safe_run ih fuel (hcast visitor node hnode) hsession

end Traversal

end Checked

/-- **Nothing that a reader does is impossible**, whatever its visitors do. Let the document be
short, as are the other documents that visitors have parsed and the names of the nodes whose bodies
they read (`Cast.IsShort`, `Script.IsShort`); the nodes may come from anywhere. Then no sum or
difference of offsets leaves the words, no slice is out of order or out of range, and no name is
copied to where there is no room for it: `Checked.run` comes to `some (script.run …)`, for every
fuel. At every moment of a run the reader is inside of the document or at its end. -/
theorem checked_run {keeps : σ → Prop} {cast : Cast ι σ ε} (hcast : cast.IsShort keeps)
    {script : Script ι σ ε α} (hscript : script.IsShort keeps) {session : Session ι σ ε}
    (hsession : session.IsShort keeps) (calls fuel : Nat) :
    Checked.run (Checked.perform cast calls) fuel script session =
        some (script.run (perform cast calls) fuel session) ∧
      ∀ ended value, script.run (perform cast calls) fuel session = some (ended, value) →
        ended.reader.position ≤ session.reader.document.length ∧
          ∀ moment ∈ ended.since session,
            moment.reader.position ≤ session.reader.document.length := by
  refine ⟨(Checked.safe_run (Checked.worksFor_perform hcast calls) fuel hscript
    hsession).eq_some, fun ended value hrun => ?_⟩
  -- a cursor is never past the end of its document, and the document stays the same
  have hinside : ∀ reader : Reader, reader.source = session.reader.source →
      reader.position ≤ session.reader.document.length := by
    intro reader hsource
    have hdocument : reader.document = session.reader.document := congrArg Prod.fst hsource
    rw [← hdocument]
    exact reader.cursor.position_le
  obtain ⟨hended, heverywhere⟩ := Session.source_of_run cast hrun
  exact ⟨hinside _ hended, fun moment hm => hinside _ (heverywhere moment hm)⟩

/-- The visitor that reads the body of an element `z` of some other document, whatever comes of it, and
descends into the node at hand. -/
def readElsewhere : Cast Unit Unit Empty := fun _ node =>
  .readBody ⟨⟨[0x7A], .empty, false⟩, 99⟩ fun _ =>
    .descend node () fun result => .done (result.map fun _ => .proceed)

/-- In `a`, the body of `z` would start at offset 99, behind the end of the document; that does no
harm. The checked run ends, and no moment of it shows the reader behind the end, at offset 12. -/
theorem checked_run_readElsewhere :
    Cast.IsShort (fun _ => True) readElsewhere ∧ intoA.IsShort (fun _ => True) ∧
      sessionInA.IsShort (fun _ => True) ∧
      ∃ ended, Checked.run (Checked.perform readElsewhere 13) 13 intoA sessionInA =
          some (some (ended, .ok ())) ∧
        ended.reader.position = 12 ∧ ∀ moment ∈ ended.since sessionInA, moment.reader.position ≤ 12 := by
  have hname : Bytes.IsShort [0x7A] := (by decide : 1 < 0x8000000000000000)
  have hcast : Cast.IsShort (fun _ => True) readElsewhere :=
    fun _ _ _ => ⟨hname, fun _ _ _ => trivial⟩
  have hscript : intoA.IsShort (fun _ => True) := fun _ => trivial
  have hsession : sessionInA.IsShort (fun _ => True) := ⟨(by decide : 12 < 0x8000000000000000), trivial⟩
  have hrun : ∃ ended, intoA.run (perform readElsewhere 13) 13 sessionInA = some (ended, .ok ()) ∧
      ended.reader.position = 12 := ⟨_, rfl, rfl⟩
  obtain ⟨ended, hdone, hplace⟩ := hrun
  obtain ⟨hchecked, hinside⟩ := checked_run hcast hscript hsession 13 13
  rw [hdone] at hchecked
  exact ⟨hcast, hscript, hsession, ended, hchecked, hplace, (hinside ended _ hdone).2⟩

end TagWalk
