import TagWalk.Proofs.Body
import TagWalk.Proofs.FlatScan
import TagWalk.TreeWalk

/-! # Tours

What a policy does with a document, told tag by tag. A **tour** keeps the elements that the policy has
descended into on a stack and has neither scopes nor a mark: when a node is left, it says itself
whether the node's closing tag is still ahead. One step looks at one tag, and a stop leaves as many
elements as answer with a stop themselves.

* **`Tour.leave`** — a node is left, and so are the elements whose enumeration ends with it.
* **`Tour.visit`** — a node is handed to the policy.
* **`Tour.step`** — one tag.
* **`Tour.run`** — one tag after another; every step takes bytes, so this ends.
* **`Policy.tour`** — the tour of a whole document. -/

namespace TagWalk

/-- A node that was visited, and the answer for it, which is given when the visit ends. -/
structure Frame where
  /-- The node. -/
  node : Node
  /-- What is answered when the visit ends well. -/
  signal : Signal

/-- What a tour has come to: where it ended, what it has met, and how. -/
structure Finish where
  /-- Where it ended. -/
  cursor : Cursor
  /-- What it has met. -/
  account : Account
  /-- Whether it ended well. -/
  result : Except Fault Unit

/-- Where a tour is. -/
inductive Tour
  /-- Among the children of an element, the innermost one that was descended into. -/
  | among (cursor : Cursor) (account : Account) (frame : Frame) (outer : List Frame)
  /-- At its end. -/
  | ended (finish : Finish)

namespace Tour

/-- A tour that fails, with all elements that enclose the cursor: `.error fault`, and nothing is
skipped. -/
def failed (cursor : Cursor) (account : Account) (fault : Fault) : Tour :=
  ended ⟨cursor, account, .error fault⟩

/-- Skip what is left of a node, behind its closing tag, and go on among its siblings. -/
def skip (cursor : Cursor) (account : Account) (node : Node) (frame : Frame)
    (outer : List Frame) : Tour :=
  match cursor.readBody node with
  | .error fault => failed cursor account fault
  | .ok (_, cursor) => among cursor account frame outer

/-- **A node is left.** The tour goes on among its siblings, behind the node's closing tag if that is
not `closed` already. With a stop the enclosing element is left as well, and it is not closed; behind
the root element, the tour ends. -/
def leave (cursor : Cursor) (account : Account) (left : Frame) (closed : Bool) :
    List Frame → Tour
  | [] => ended ⟨cursor, account, .ok ()⟩
  | frame :: outer =>
      match left.signal with
      | .stop => leave cursor account frame false outer
      | .proceed =>
          if closed then among cursor account frame outer
          else skip cursor account left.node frame outer

/-- **A node is handed to a policy**, inside of the elements `outer`. -/
def visit (policy : Policy) (maxDepth : Nat) (cursor : Cursor) (account : Account) (node : Node)
    (outer : List Frame) : Tour :=
  let account := account.meet (outer.length + 1) node
  let choice := policy account.seen
  match choice.use with
  | .ignore => leave cursor account ⟨node, choice.signal⟩ false outer
  | .readBody =>
      match cursor.readBody node with
      | .error fault => failed cursor account fault
      | .ok (body, cursor) => leave cursor (account.read body) ⟨node, choice.signal⟩ true outer
  | .descend =>
      if node.selfClosing then leave cursor account ⟨node, choice.signal⟩ true outer
      else if maxDepth ≤ outer.length + 1 then failed cursor account (.depthExceeded maxDepth)
      else among cursor account ⟨node, choice.signal⟩ outer

/-- A tag that may open an element is passed and decoded, and its node is visited; a tag that cannot
be decoded is passed as well. -/
def enter (policy : Policy) (options : Options) (cursor : Cursor) (account : Account) (tag : Tag)
    (outer : List Frame) : Tour :=
  match cursor.decodeTag options.overflow tag with
  | .error fault => failed (cursor.passTag tag) account fault
  | .ok node => visit policy options.maxDepth (cursor.passTag tag) account node outer

/-- **One tag.** A closing tag is that of the innermost element, whatever its name; markup is passed
over; any other tag is entered. -/
def step (policy : Policy) (options : Options) : Tour → Tour
  | ended finish => ended finish
  | among cursor account frame outer =>
      match cursor.nextTag with
      | .error fault => failed cursor account fault
      | .ok tag =>
          match cursor.kindOf tag with
          | .closing => leave (cursor.passTag tag) account frame true outer
          | .markup => among (cursor.passTag tag) account frame outer
          | .element => enter policy options cursor account tag (frame :: outer)

section Step

variable {policy : Policy} {options : Options} {cursor : Cursor} {account : Account} {frame : Frame}
  {outer : List Frame} {tag : Tag}

/-- A tag that cannot be decoded ends a tour behind it, at `cursor.passTag tag`. -/
theorem enter_of_error {fault : Fault}
    (hdecode : cursor.decodeTag options.overflow tag = .error fault) :
    enter policy options cursor account tag outer = failed (cursor.passTag tag) account fault := by
  simp only [enter, hdecode]

/-- The node of any other tag is visited. -/
theorem enter_of_ok {node : Node} (hdecode : cursor.decodeTag options.overflow tag = .ok node) :
    enter policy options cursor account tag outer =
      visit policy options.maxDepth (cursor.passTag tag) account node outer := by
  simp only [enter, hdecode]

/-- A tag that cannot be found ends a tour where the cursor is. -/
theorem step_of_error {fault : Fault} (hnext : cursor.nextTag = .error fault) :
    step policy options (among cursor account frame outer) = failed cursor account fault := by
  simp only [step, hnext]

/-- At a closing tag, the innermost element is left, and is closed by it: no search for its own
closing tag is made. -/
theorem step_of_closing (hnext : cursor.nextTag = .ok tag) (hkind : cursor.kindOf tag = .closing) :
    step policy options (among cursor account frame outer) =
      leave (cursor.passTag tag) account frame true outer := by
  simp only [step, hnext, hkind]

/-- Markup is passed over. -/
theorem step_of_markup (hnext : cursor.nextTag = .ok tag) (hkind : cursor.kindOf tag = .markup) :
    step policy options (among cursor account frame outer) =
      among (cursor.passTag tag) account frame outer := by
  simp only [step, hnext, hkind]

/-- An opening tag is entered. -/
theorem step_of_element (hnext : cursor.nextTag = .ok tag) (hkind : cursor.kindOf tag = .element) :
    step policy options (among cursor account frame outer) =
      enter policy options cursor account tag (frame :: outer) := by
  simp only [step, hnext, hkind]

end Step

/-- How many steps a tour may still take: no more than bytes are left, and one to find that none
is. -/
def stepsLeft : Tour → Nat
  | among cursor .. => cursor.remainingLength + 1
  | ended _ => 0

/-- A node that closes itself has no closing tag ahead. -/
theorem leave_of_selfClosing {cursor : Cursor} {account : Account} {left : Frame} {outer : List Frame}
    (h : left.node.selfClosing = true) (closed : Bool) :
    leave cursor account left closed outer = leave cursor account left true outer := by
  cases outer with
  | nil => rfl
  | cons frame outer =>
    have hskip : skip cursor account left.node frame outer = among cursor account frame outer := by
      rw [skip, Cursor.readBody_of_selfClosing h]
    rw [leave, leave, hskip]
    cases closed <;> rfl

section Visit

variable {policy : Policy} {maxDepth : Nat} {cursor : Cursor} {account : Account} {node : Node}
  {outer : List Frame} {choice : Choice}

/-- A node that is let go is left with its closing tag ahead. -/
theorem visit_of_ignore (hchoice : policy (node :: account.seen) = choice)
    (huse : choice.use = .ignore) :
    visit policy maxDepth cursor account node outer =
      leave cursor (account.meet (outer.length + 1) node) ⟨node, choice.signal⟩ false outer := by
  subst hchoice
  simp only [visit, Account.meet, huse]

/-- A body that cannot be read ends the tour, with the node met. -/
theorem visit_of_unread {fault : Fault} (huse : (policy (node :: account.seen)).use = .readBody)
    (hread : cursor.readBody node = .error fault) :
    visit policy maxDepth cursor account node outer =
      failed cursor (account.meet (outer.length + 1) node) fault := by
  simp only [visit, Account.meet, huse, hread]

/-- Any other body is read, and the node is left behind its closing tag. -/
theorem visit_of_read {body : Bytes} {after : Cursor}
    (hchoice : policy (node :: account.seen) = choice) (huse : choice.use = .readBody)
    (hread : cursor.readBody node = .ok (body, after)) :
    visit policy maxDepth cursor account node outer =
      leave after ((account.meet (outer.length + 1) node).read body) ⟨node, choice.signal⟩ true
        outer := by
  subst hchoice
  simp only [visit, Account.meet, huse, hread]

/-- A node that closes itself has no children. -/
theorem visit_of_childless (hchoice : policy (node :: account.seen) = choice)
    (huse : choice.use = .descend) (hclosed : node.selfClosing = true) :
    visit policy maxDepth cursor account node outer =
      leave cursor (account.meet (outer.length + 1) node) ⟨node, choice.signal⟩ true outer := by
  subst hchoice
  simp only [visit, Account.meet, huse, hclosed, if_true]

/-- Without room for its scope, a node is not descended into: the descent fails with
`depthExceeded maxDepth`. -/
theorem visit_of_full (huse : (policy (node :: account.seen)).use = .descend)
    (hopen : node.selfClosing = false) (hfull : maxDepth ≤ outer.length + 1) :
    visit policy maxDepth cursor account node outer =
      failed cursor (account.meet (outer.length + 1) node) (.depthExceeded maxDepth) := by
  simp only [visit, Account.meet, huse, hopen, hfull, Bool.false_eq_true, if_false, if_true]

/-- **A descent goes on among the children**, with the node as the innermost frame. -/
theorem visit_of_room (hchoice : policy (node :: account.seen) = choice)
    (huse : choice.use = .descend) (hopen : node.selfClosing = false)
    (hroom : ¬ maxDepth ≤ outer.length + 1) :
    visit policy maxDepth cursor account node outer =
      among cursor (account.meet (outer.length + 1) node) ⟨node, choice.signal⟩ outer := by
  subst hchoice
  simp only [visit, Account.meet, huse, hopen, hroom, Bool.false_eq_true, if_false]

end Visit

section StepsLeft

variable {policy : Policy} {options : Options} {cursor : Cursor} {account : Account}
  {left frame : Frame} {closed : Bool} {node : Node} {outer : List Frame} {tag : Tag} {bound : Nat}

/-- Reading a body leaves no more bytes than there were. -/
theorem remainingLength_readBody {body : Bytes} {after : Cursor}
    (h : cursor.readBody node = .ok (body, after)) :
    after.remainingLength ≤ cursor.remainingLength := by
  obtain ⟨hdocument, hposition⟩ := Cursor.document_readBody h
  rw [Cursor.remainingLength, Cursor.remainingLength, hdocument]
  omega

/-- Leaving a node allows no more steps than the bytes that are left, by induction on the elements
that are left with it. -/
theorem stepsLeft_leave (h : cursor.remainingLength < bound) :
    (leave cursor account left closed outer).stepsLeft ≤ bound := by
  induction outer generalizing left closed with
  | nil => exact Nat.zero_le _
  | cons frame outer ih =>
    rw [leave]
    split
    · exact ih
    · split
      · exact h
      · rw [skip]
        split
        · exact Nat.zero_le _
        · rename_i hread
          exact Nat.lt_of_le_of_lt (remainingLength_readBody hread) h

/-- A visit allows no more steps than the bytes that are left. -/
theorem stepsLeft_visit {maxDepth : Nat} (h : cursor.remainingLength < bound) :
    (visit policy maxDepth cursor account node outer).stepsLeft ≤ bound := by
  unfold visit
  dsimp only
  split
  · exact stepsLeft_leave h
  · split
    · exact Nat.zero_le _
    · rename_i hread
      exact stepsLeft_leave (Nat.lt_of_le_of_lt (remainingLength_readBody hread) h)
  · split
    · exact stepsLeft_leave h
    · split
      · exact Nat.zero_le _
      · exact h

/-- **Every step takes bytes**: `stepsLeft` decreases, since the next tag has two bytes at least. -/
theorem stepsLeft_step (policy : Policy) (options : Options) :
    (step policy options (among cursor account frame outer)).stepsLeft <
      (among cursor account frame outer).stepsLeft := by
  show _ < cursor.remainingLength + 1
  rw [Nat.lt_succ_iff, step]
  split
  · exact Nat.zero_le _
  · rename_i tag hnext
    have hpassed := Cursor.remainingLength_passTag hnext
    split
    · exact stepsLeft_leave hpassed
    · exact hpassed
    · rw [enter]
      split
      · exact Nat.zero_le _
      · exact stepsLeft_visit hpassed

end StepsLeft

/-- **A tour, to its end**: one `step` after another, which ends as `stepsLeft` decreases. -/
def run (policy : Policy) (options : Options) : Tour → Finish
  | ended finish => finish
  | among cursor account frame outer =>
      run policy options (step policy options (among cursor account frame outer))
termination_by tour => tour.stepsLeft
decreasing_by exact stepsLeft_step policy options

@[simp] theorem run_ended (policy : Policy) (options : Options) (finish : Finish) :
    run policy options (ended finish) = finish := by
  rw [run]

@[simp] theorem run_failed (policy : Policy) (options : Options) (cursor : Cursor)
    (account : Account) (fault : Fault) :
    run policy options (failed cursor account fault) = ⟨cursor, account, .error fault⟩ :=
  run_ended _ _ _

/-- A step is part of the run: `run (step tour) = run tour`, also at the end of a tour, where a step
does nothing. -/
theorem run_step (policy : Policy) (options : Options) (tour : Tour) :
    run policy options (step policy options tour) = run policy options tour := by
  cases tour with
  | among cursor account frame outer => rw [run]
  | ended finish => rfl

/-- **The tour of a document, behind its prolog**: the root element is the next tag. An empty rest
is no fault, and the bound on scopes is looked at before the tag is. -/
def start (policy : Policy) (options : Options) (cursor : Cursor) : Tour :=
  if cursor.isEof then ended ⟨cursor, .blank, .ok ()⟩
  else if options.maxDepth = 0 then failed cursor .blank (.depthExceeded options.maxDepth)
  else
    match cursor.nextTag with
    | .error fault => failed cursor .blank fault
    | .ok tag =>
        if cursor.kindOf tag = .closing then failed cursor .blank (.unexpectedClosingTag tag.start)
        else enter policy options cursor .blank tag []

end Tour

/-- **The tour of a whole document** by a policy, from a cursor on: its prolog is skipped, and then
`Tour.start` runs to its end. -/
def Policy.tour (policy : Policy) (options : Options) (cursor : Cursor) : Finish :=
  match cursor.skipProlog.2.result with
  | .error fault => ⟨cursor.skipProlog.1, .blank, .error fault⟩
  | .ok () => (Tour.start policy options cursor.skipProlog.1).run policy options

end TagWalk
