import TagWalk.Proofs.Exactness
import TagWalk.Proofs.Tour

/-! # Parses are tours

A reader that is driven by a policy does what the policy's tour does. The reader keeps a mark to know
which child is closed; the tour knows it from how the child was left. Both come to the same, since the
work on a child leaves the mark of no element around it, and the mark that it finds is not its own.

* **`Tour.resumed`** — the tour from where a visit has ended.
* **`OnTour`** — work in step with a tour.
* **`Act.Tours`** — an act in step with the tours of a policy.
* **`parse_eq_tour`** — on every document, a policy's parse comes to what its tour comes to. -/

namespace TagWalk

/-- **The tour from where a visit has ended**, with the reader's mark for whether the node is
closed: `leave` after an answer, and `failed` after a fault. -/
def Tour.resumed (outer : List Frame) (node : Node) (ended : Walking) : Except Fault Signal → Tour
  | .ok signal =>
      leave ended.reader.cursor ended.account ⟨node, signal⟩ (ended.reader.isClosed node) outer
  | .error fault => failed ended.reader.cursor ended.account fault

/-- **Work in step with a tour**: the tour that comes to `finish` goes on from where the work ended,
`finish = (Tour.resumed outer node ended answer).run …`. -/
structure OnTour (policy : Policy) (finish : Finish) (outer : List Frame) (node : Node)
    (before : Reader) (ended : Walking) (answer : Except Fault Signal) : Prop where
  /-- Unless it fails, the reader moves on, and marks nothing in front of the node. -/
  moved (signal : Signal) (ok : answer = .ok signal) :
    Reader.Moved node.bodyStart before ended.reader
  /-- It is where the node's body starts, or behind. -/
  bodyStart_le (signal : Signal) (ok : answer = .ok signal) :
    node.bodyStart ≤ ended.reader.position
  /-- The tour goes on from there. -/
  finish_eq : finish = (Tour.resumed outer node ended answer).run policy before.options

namespace OnTour

variable {policy : Policy} {finish : Finish} {outer : List Frame} {node : Node}
  {before between : Reader} {ended after : Walking} {answer : Except Fault Signal}

/-- A failure ends the tour where the reader is. -/
theorem of_failed {fault : Fault}
    (h : finish = ⟨ended.reader.cursor, ended.account, .error fault⟩) :
    OnTour policy finish outer node before ended (.error fault) :=
  ⟨nofun, nofun, h.trans (Tour.run_failed ..).symm⟩

/-- Work that begins earlier and of which only scopes and trace change is in step as well:
`Tour.resumed` looks at the cursor, the mark and the account only. -/
theorem imp (h : OnTour policy finish outer node between ended answer)
    (hmoved : Reader.Moved node.bodyStart between ended.reader →
      Reader.Moved node.bodyStart before after.reader)
    (hoptions : between.options = before.options)
    (hcursor : after.reader.cursor = ended.reader.cursor)
    (hmark : after.reader.lastClosed = ended.reader.lastClosed)
    (haccount : after.account = ended.account) :
    OnTour policy finish outer node before after answer := by
  refine ⟨fun signal hok => hmoved (h.moved signal hok), fun signal hok => ?_, ?_⟩
  · rw [Reader.position, hcursor]
    exact h.bodyStart_le signal hok
  · have hresumed : Tour.resumed outer node after answer = Tour.resumed outer node ended answer := by
      cases answer with
      | error fault => rw [Tour.resumed, Tour.resumed, hcursor, haccount]
      | ok signal =>
        rw [Tour.resumed, Tour.resumed, hcursor, haccount, Reader.isClosed, hmark, Reader.isClosed]
    rw [← hoptions, hresumed]
    exact h.finish_eq

end OnTour

/-- **A node arrives at a policy**, inside of the elements `outer`: the reader is just behind its tag,
and the account is the one before the visit. -/
structure Arrives (outer : List Frame) (node : Node) (account : Account) (session : Walking) :
    Prop where
  /-- There are as many scopes as elements around the node, and one for the document. -/
  depth_eq : session.reader.depth = outer.length + 1
  /-- The reader is where the body starts. -/
  position_eq : session.reader.position = node.bodyStart
  /-- The mark is that of an earlier node. -/
  mark_lt : ∀ place ∈ session.reader.lastClosed, place < node.bodyStart
  /-- The policy has not seen the node yet. -/
  state_eq : session.state = account.seen
  /-- Once it has, the visit is in the account. -/
  account_eq : (Handed.met node account session).account = account.meet (outer.length + 1) node

/-- **A node arrives when its tag is opened** and the visit begins, if the mark is behind the reader. -/
theorem Arrives.of_openNode {outer : List Frame} {node : Node} {session : Walking} {tag : Tag}
    (hdepth : session.reader.depth = outer.length + 1) (hmark : session.reader.MarkBehind)
    (hposition : (session.reader.passTag tag).position = node.bodyStart)
    (hahead : session.reader.position < node.bodyStart) :
    Arrives outer node session.account
      ((session.openNode tag).1.record (.visit () node tag session.reader.position)) := by
  have hopened : (session.openNode tag).1.reader = session.reader.passTag tag :=
    Session.reader_openNode session tag
  have hreader : ((session.openNode tag).1.record
      (.visit () node tag session.reader.position)).reader = session.reader.passTag tag := by
    rw [Session.reader_record, hopened]
  refine ⟨?_, ?_, ?_, session.state_openNode tag, ?_⟩
  · rw [hreader]
    exact hdepth
  · rw [hreader]
    exact hposition
  · intro place hplace
    rw [hreader] at hplace
    exact Nat.lt_of_le_of_lt (hmark place hplace) hahead
  · -- the visit is shown with the scopes and the place that the tour counts
    have hdepth' : (session.reader.passTag tag).depth = outer.length + 1 := hdepth
    have hsights : ((session.openNode tag).1.record
        (.visit () node tag session.reader.position)).sights =
          session.sights ++ [⟨node, outer.length + 1, node.bodyStart⟩] := by
      have hnone : (session.openNode tag).1.sights = session.sights := by simp [Session.openNode]
      rw [Session.sights_record, hnone, hopened]
      simp [Moment.sight?, hposition, hdepth']
    have hbodies : ((session.openNode tag).1.record
        (.visit () node tag session.reader.position)).bodies = session.bodies := by
      rw [Session.bodies_record]
      simp [Moment.body?, Session.openNode]
    exact congrArg₂ (Account.mk (node :: session.state)) hsights hbodies

/-- **An act in step with the tours of a policy** while fewer than `bound` bytes are left: a node
that arrives is worked on, and the tour that visits it goes on behind the work. -/
def Act.Tours (act : Act Unit (List Node) Empty) (policy : Policy) (bound : Nat) : Prop :=
  ∀ (outer : List Frame) (node : Node) (account : Account) (session : Walking),
    Arrives outer node account session → session.remainingLength < bound →
      ∃ ended answer, act () node session = some (ended, answer) ∧
        OnTour policy
          (Tour.run policy session.reader.options
            (.visit policy session.reader.options.maxDepth session.reader.cursor account node outer))
          outer node session.reader ended answer

/-- A body that is read moves the reader on, and marks its node, which is not ahead of the reader
then: `node.bodyStart ≤ cursor.position`. -/
theorem Reader.Moved.of_readBody {reader : Reader} {node : Node} {body : Bytes} {cursor : Cursor}
    (h : reader.cursor.readBody node = .ok (body, cursor)) (hle : node.bodyStart ≤ cursor.position) :
    Reader.Moved node.bodyStart reader ({ reader with cursor }.markClosed node) := by
  obtain ⟨hdocument, hposition⟩ := Cursor.document_readBody h
  exact ⟨hdocument, rfl, rfl, hposition, .inr ⟨node.bodyStart, rfl, Nat.le_refl _, hle⟩⟩

section Act

variable {act : Act Unit (List Node) Empty} {policy : Policy} {bound : Nat} {session : Walking}
  {outer : List Frame}

/-- **A tag that is opened and visited** is in step with a tour that enters it, `Tour.enter`, inside
of the elements `outer`. -/
theorem onTour_visitTag (hact : act.Tours policy bound) {tag : Tag} {node : Node}
    (hbound : session.remainingLength ≤ bound) (hdepth : session.reader.depth = outer.length + 1)
    (hmark : session.reader.MarkBehind) (hnext : session.reader.cursor.nextTag = .ok tag)
    (hdecode : session.reader.cursor.decodeTag session.reader.options.overflow tag = .ok node) :
    ∃ visited answer, session.visitTag act () tag = some (visited, answer.map (node, ·)) ∧
      session.reader.position < node.bodyStart ∧
      OnTour policy
        (Tour.run policy session.reader.options
          (.enter policy session.reader.options session.reader.cursor session.account tag outer))
        outer node session.reader visited answer := by
  have hopened : (session.openNode tag).1.reader = session.reader.passTag tag :=
    Session.reader_openNode session tag
  have hopen : (session.reader.openNode tag).2.result = .ok node := hdecode
  have hbody : node.bodyStart = tag.stop + 1 :=
    (Reader.isOpened_of_openNode hnext hopen).bodyStart_eq
  have hposition : (session.reader.passTag tag).position = node.bodyStart :=
    (Reader.position_passTag hnext).trans hbody.symm
  obtain ⟨hstart, hstop, -⟩ := Cursor.nextTag_bounds hnext
  have hahead : session.reader.position < node.bodyStart := by
    rw [hbody]
    show session.reader.cursor.position < _
    omega
  have harrives : Arrives outer node session.account
      ((session.openNode tag).1.record (.visit () node tag session.reader.position)) :=
    .of_openNode hdepth hmark hposition hahead
  have hbelow : ((session.openNode tag).1.record
      (.visit () node tag session.reader.position)).remainingLength < bound := by
    refine Nat.lt_of_lt_of_le ?_ hbound
    rw [Session.remainingLength, Session.reader_record, hopened]
    exact Cursor.remainingLength_passTag hnext
  -- the tag has taken bytes, so the act is in step with the visit of its node
  obtain ⟨worked, answer, hwork, hstep⟩ := hact outer node session.account _ harrives hbelow
  rw [Session.reader_record, hopened] at hstep
  refine ⟨_, answer, Session.visitTag_of_ok hdecode hwork, hahead, ?_⟩
  rw [Tour.enter_of_ok hdecode]
  refine hstep.imp (fun hmoved => ?_) rfl rfl rfl (Session.account_record rfl rfl)
  exact (Reader.Moved.passTag _ hnext).trans hmoved

/-- **One tag in step with a tour** among the children of the element `frame`: either the tour goes
on behind the tag, or the enumeration ends and the tour goes on from there. -/
inductive StepsOn (policy : Policy) (frame : Frame) (outer : List Frame) (session after : Walking) :
    Progress → Prop
  /-- The tour goes on behind the tag. -/
  | more (moved : Reader.Moved frame.node.bodyStart session.reader after.reader)
      (remainingLength_lt : after.remainingLength < session.remainingLength)
      (unmarked : after.reader.lastClosed ≠ some frame.node.bodyStart)
      (run_eq : (Tour.among session.reader.cursor session.account frame outer).run policy
          session.reader.options =
        (Tour.among after.reader.cursor after.account frame outer).run policy
          session.reader.options) : StepsOn policy frame outer session after .more
  /-- The enumeration ends, and the tour goes on from there. -/
  | finished {result : Except Fault Unit}
      (onTour : OnTour policy
        (Tour.run policy session.reader.options
          (.among session.reader.cursor session.account frame outer))
        outer frame.node session.reader after (result.map fun _ => frame.signal)) :
      StepsOn policy frame outer session after (.finished result)

/-- **What follows a visit is in step** with the tour that leaves the child: after `.proceed` it is
skipped unless it is closed, and a `.stop` leaves `frame` as well. -/
theorem stepsOn_afterVisit {frame : Frame} {child : Node} {signal : Signal} {visited : Walking}
    (hopen : frame.node.selfClosing = false)
    (hmark : session.reader.lastClosed ≠ some frame.node.bodyStart)
    (hlt : visited.remainingLength < session.remainingLength)
    (hahead : frame.node.bodyStart < child.bodyStart)
    (h : OnTour policy
      (Tour.run policy session.reader.options
        (.among session.reader.cursor session.account frame outer))
      (frame :: outer) child session.reader visited (.ok signal)) :
    StepsOn policy frame outer session (visited.afterVisit child signal).1
      (visited.afterVisit child signal).2 := by
  have hmoved := h.moved signal rfl
  have hrun := h.finish_eq
  have hunmarked := hmoved.lastClosed_ne hahead hmark
  rw [Tour.resumed, Tour.leave] at hrun
  rcases visited.afterVisit_cases child signal with
    ⟨rfl, hstop⟩ | ⟨rfl, hclosed, hpassed⟩ | ⟨rfl, hclosed, hskip⟩
  · rw [hstop]
    refine .finished ⟨fun _ _ => hmoved.of_le (Nat.le_of_lt hahead), fun _ _ => ?_, ?_⟩
    · exact Nat.le_trans (Nat.le_of_lt hahead) (h.bodyStart_le _ rfl)
    · -- the element that is left with the child has no mark
      rw [hrun]
      show _ = (Tour.leave _ _ frame _ outer).run _ _
      rw [Reader.isClosed_of_ne hopen hunmarked]
  · rw [hpassed]
    simp only [hclosed, if_true] at hrun
    exact .more (hmoved.of_le (Nat.le_of_lt hahead)) hlt hunmarked hrun
  · simp only [hclosed, Bool.false_eq_true, if_false, Tour.skip] at hrun
    cases hread : visited.reader.cursor.readBody child with
    | error fault =>
      rw [hread] at hrun
      obtain ⟨hreader, hresult⟩ := Reader.readBody_of_error hread
      rw [Session.afterVisit_of_unread hclosed hresult]
      refine .finished (.of_failed ?_)
      rw [hrun, Session.reader_skip, hreader, Session.account_skip]
      exact Tour.run_failed ..
    | ok read =>
      obtain ⟨body, cursor⟩ := read
      rw [hread] at hrun
      have hreader := Reader.readBody_of_ok hread
      rw [Session.afterVisit_of_read hclosed (by rw [hreader]; rfl)]
      have hskipped : Reader.Moved child.bodyStart visited.reader (visited.skip child).1.reader := by
        rw [Session.reader_skip, hreader]
        have hstands := (Cursor.prefix_of_readBody (Bool.or_eq_false_iff.mp hclosed).1 hread).2
        exact .of_readBody hread (by omega)
      have hall := hmoved.trans hskipped
      refine .more (hall.of_le (Nat.le_of_lt hahead)) ?_ (hall.lastClosed_ne hahead hmark) ?_
      · refine Nat.lt_of_le_of_lt ?_ hlt
        rw [Session.remainingLength, Session.reader_skip, hreader]
        exact Tour.remainingLength_readBody hread
      · rw [hrun, Session.reader_skip, hreader, Session.account_skip]
        rfl

/-- **One tag among the children of an element is in step** with a tour among them: `childStep` and
`Tour.step` make the same case distinction. -/
theorem stepsOn_childStep (hact : act.Tours policy bound) {frame : Frame}
    (hopen : frame.node.selfClosing = false) (hbound : session.remainingLength ≤ bound)
    (hdepth : session.reader.depth = outer.length + 2)
    (hstart : frame.node.bodyStart ≤ session.reader.position)
    (hbehind : session.reader.MarkBehind)
    (hmark : session.reader.lastClosed ≠ some frame.node.bodyStart) :
    ∃ after progress, session.childStep act frame.node () = some (after, progress) ∧
      StepsOn policy frame outer session after progress := by
  cases hnext : session.reader.cursor.nextTag with
  | error fault =>
    refine ⟨session, _, Session.childStep_of_error hnext, .finished (.of_failed ?_)⟩
    rw [← Tour.run_step, Tour.step_of_error hnext]
    exact Tour.run_failed ..
  | ok tag =>
    have hpassed := Reader.Moved.passTag frame.node.bodyStart hnext
    cases hkind : session.reader.cursor.kindOf tag with
    | closing =>
      refine ⟨_, _, Session.childStep_of_closing hnext hkind, .finished ?_⟩
      refine ⟨fun _ _ => ?_, fun _ _ => ?_, ?_⟩
      · exact hpassed.markClosed (Nat.le_trans hstart hpassed.position_le)
      · exact Nat.le_trans hstart hpassed.position_le
      · have hclosed : (session.close frame.node tag).reader.isClosed frame.node = true :=
          Reader.isClosed_of_eq rfl
        rw [← Tour.run_step, Tour.step_of_closing hnext hkind]
        show _ = (Tour.leave _ _ frame _ outer).run _ _
        rw [hclosed, Session.account_close]
        rfl
    | markup =>
      refine ⟨_, _, Session.childStep_of_markup hnext hkind, .more hpassed ?_ hmark ?_⟩
      · exact Cursor.remainingLength_passTag hnext
      · rw [← Tour.run_step, Tour.step_of_markup hnext hkind, Session.account_skipMarkup]
        rfl
    | element =>
      have henter : Tour.run policy session.reader.options
          (.among session.reader.cursor session.account frame outer) =
            Tour.run policy session.reader.options (.enter policy session.reader.options
              session.reader.cursor session.account tag (frame :: outer)) := by
        rw [← Tour.run_step, Tour.step_of_element hnext hkind]
      cases hdecode : session.reader.cursor.decodeTag session.reader.options.overflow tag with
      | error fault =>
        refine ⟨_, _, Session.childStep_of_failed hnext hkind (Session.visitTag_of_error hdecode),
          .finished (.of_failed ?_)⟩
        rw [henter, Tour.enter_of_error hdecode, Session.reader_openNode]
        exact (Tour.run_failed ..).trans (congrArg (Finish.mk _ · _) (Session.account_step ..).symm)
      | ok child =>
        have hinner : session.reader.depth = (frame :: outer).length + 1 := hdepth
        obtain ⟨visited, answer, hvisit, hahead, honTour⟩ :=
          onTour_visitTag hact hbound hinner hbehind hnext hdecode
        rw [← henter] at honTour
        cases answer with
        | error fault =>
          exact ⟨visited, _, Session.childStep_of_failed hnext hkind hvisit,
            .finished (.of_failed (honTour.finish_eq.trans (Tour.run_failed ..)))⟩
        | ok signal =>
          refine ⟨_, _, Session.childStep_of_visited hnext hkind hvisit,
            stepsOn_afterVisit hopen hmark ?_ (Nat.lt_of_le_of_lt hstart hahead) honTour⟩
          -- the visit ends behind the tag of the child
          have hmoved := honTour.moved signal rfl
          have hplace := honTour.bodyStart_le signal rfl
          have hend := visited.reader.cursor.position_le
          have hdocument : visited.reader.cursor.document = session.reader.cursor.document :=
            hmoved.document_eq
          show visited.reader.cursor.document.length - visited.reader.cursor.position <
            session.reader.cursor.document.length - session.reader.cursor.position
          rw [← hdocument]
          have hless : session.reader.cursor.position < visited.reader.cursor.position :=
            Nat.lt_of_lt_of_le hahead hplace
          omega

/-- **The children of an element are in step** with a tour among them, by induction on how many tags
are looked at; the `fuel` is enough where it is greater than the number of bytes left. -/
theorem onTour_scanChildren (hact : act.Tours policy bound) (frame : Frame) {fuel : Nat}
    (hopen : frame.node.selfClosing = false) (hbound : session.remainingLength ≤ bound)
    (hfuel : session.remainingLength < fuel) (hdepth : session.reader.depth = outer.length + 2)
    (hstart : frame.node.bodyStart ≤ session.reader.position)
    (hbehind : session.reader.MarkBehind)
    (hmark : session.reader.lastClosed ≠ some frame.node.bodyStart) :
    ∃ ended result, Session.scanChildren act frame.node () fuel session = some (ended, result) ∧
      OnTour policy
        (Tour.run policy session.reader.options
          (.among session.reader.cursor session.account frame outer))
        outer frame.node session.reader ended (result.map fun _ => frame.signal) := by
  induction fuel generalizing session with
  | zero => exact absurd hfuel (Nat.not_lt_zero _)
  | succ fuel ih =>
    have hstep : ∃ after progress, session.childStep act frame.node () = some (after, progress) ∧
        StepsOn policy frame outer session after progress :=
      stepsOn_childStep hact hopen hbound hdepth hstart hbehind hmark
    obtain ⟨after, progress, hstep, hsteps⟩ := hstep
    cases hsteps with
    | finished honTour => exact ⟨after, _, Session.scanChildren_of_finished hstep, honTour⟩
    | more moved remainingLength_lt unmarked run_eq =>
      obtain ⟨ended, result, hdone, hrest⟩ :=
        ih (Nat.le_trans (Nat.le_of_lt remainingLength_lt) hbound)
          (Nat.lt_of_lt_of_le remainingLength_lt (Nat.le_of_lt_succ hfuel))
          (moved.depth_eq.trans hdepth) (Nat.le_trans hstart moved.position_le)
          (moved.markBehind hbehind) unmarked
      -- the steps so far and the rest of the enumeration are one stretch
      refine ⟨ended, result, (Session.scanChildren_of_more hstep).trans hdone, ?_,
        hrest.bodyStart_le, ?_⟩
      · exact fun signal hok => moved.trans (hrest.moved signal hok)
      · rw [run_eq, ← moved.options_eq]
        exact hrest.finish_eq

end Act

/-! ## One visit -/

namespace Arrives

variable {policy : Policy} {outer : List Frame} {node : Node} {account : Account}
  {session : Walking}

/-- **A node that is let go** is left where it is, and its closing tag is ahead: the reader has no
mark of it. -/
theorem onTour_ignore (h : Arrives outer node account session)
    (huse : (policy (node :: account.seen)).use = .ignore) :
    OnTour policy
      (Tour.run policy session.reader.options
        (.visit policy session.reader.options.maxDepth session.reader.cursor account node outer))
      outer node session.reader (Handed.met node account session)
      (.ok (policy (node :: account.seen)).signal) := by
  refine ⟨fun _ _ => .refl _ _, fun _ _ => Nat.le_of_eq h.position_eq.symm, ?_⟩
  rw [Tour.visit_of_ignore rfl huse, Tour.resumed, h.account_eq, Handed.reader_met]
  -- a mark that lies in front of the body is that of another node
  cases hself : node.selfClosing with
  | false => rw [Reader.isClosed_of_ne hself fun heq => Nat.lt_irrefl _ (h.mark_lt _ heq)]
  | true =>
    rw [Tour.leave_of_selfClosing hself, Tour.leave_of_selfClosing hself (Reader.isClosed _ _)]

/-- **A node whose body is read** is left behind its closing tag, with its mark set; a body that
cannot be read ends both. -/
theorem onTour_readBody (h : Arrives outer node account session)
    (huse : (policy (node :: account.seen)).use = .readBody) :
    OnTour policy
      (Tour.run policy session.reader.options
        (.visit policy session.reader.options.maxDepth session.reader.cursor account node outer))
      outer node session.reader ((Handed.met node account session).readBody node).1
      (((Handed.met node account session).readBody node).2.map
        fun _ => (policy (node :: account.seen)).signal) := by
  have hreader : ((Handed.met node account session).readBody node).1.reader =
      (session.reader.readBody node).1 := Session.reader_readBody _ _
  have hresult : ((Handed.met node account session).readBody node).2 =
      (session.reader.readBody node).2.result := rfl
  cases hread : session.reader.cursor.readBody node with
  -- the reader stays where it was, and both end with the fault
  | error fault =>
    obtain ⟨hstay, hfault⟩ := Reader.readBody_of_error hread
    have haccount : ((Handed.met node account session).readBody node).1.account =
        (Handed.met node account session).account := Session.account_readBody_of_error hfault
    rw [hresult, hfault, Tour.visit_of_unread huse hread]
    refine .of_failed ?_
    rw [hreader, hstay, haccount, h.account_eq]
    exact Tour.run_failed ..
  -- the mark is that of the node, so the tour finds it closed as well
  | ok read =>
    obtain ⟨body, cursor⟩ := read
    have hmarked := Reader.readBody_of_ok hread
    have hbody : (session.reader.readBody node).2.result = .ok body := by
      rw [hmarked]
      rfl
    have haccount : ((Handed.met node account session).readBody node).1.account =
        (Handed.met node account session).account.read body := Session.account_readBody_of_ok hbody
    have hplace : node.bodyStart ≤ cursor.position :=
      h.position_eq ▸ (Cursor.document_readBody hread).2
    rw [hresult, hbody, Tour.visit_of_read rfl huse hread]
    refine ⟨fun _ _ => ?_, fun _ _ => ?_, ?_⟩
    · rw [hreader, hmarked]
      exact .of_readBody hread hplace
    · rw [hreader, hmarked]
      exact hplace
    · have hclosed : (session.reader.readBody node).1.isClosed node = true := by
        rw [hmarked]
        exact Reader.isClosed_of_eq rfl
      show _ = (Tour.leave _ _ _ _ _).run _ _
      rw [hreader, hclosed, hmarked, haccount, h.account_eq]
      rfl

/-- **The children of a node** are in step with a tour that descends into it, whether it closes
itself, has no room for its scope, or is entered. -/
theorem onTour_children {act : Act Unit (List Node) Empty} {bound fuel : Nat}
    (hact : act.Tours policy bound) (h : Arrives outer node account session)
    (huse : (policy (node :: account.seen)).use = .descend)
    (hbound : session.remainingLength ≤ bound) (hfuel : session.remainingLength < fuel) :
    ∃ worked result,
      ((Handed.met node account session).record (.descend node ())).children act fuel node () =
        some (worked, result) ∧
      OnTour policy
        (Tour.run policy session.reader.options
          (.visit policy session.reader.options.maxDepth session.reader.cursor account node outer))
        outer node session.reader worked
        (result.map fun _ => (policy (node :: account.seen)).signal) := by
  have hdescend : ((Handed.met node account session).record (.descend node ())).account =
      account.meet (outer.length + 1) node := (Session.account_record rfl rfl).trans h.account_eq
  cases hself : node.selfClosing with
  | true =>
    rw [Tour.visit_of_childless rfl huse hself]
    refine ⟨_, .ok (), Session.children_of_selfClosing hself, fun _ _ => ?_, fun _ _ => ?_, ?_⟩
    · exact (Reader.Moved.refl _ _).markClosed (Nat.le_of_eq h.position_eq.symm)
    · exact Nat.le_of_eq h.position_eq.symm
    · have hclosed : (session.reader.markClosed node).isClosed node = true :=
        Reader.isClosed_of_eq rfl
      rw [← hdescend, ← hclosed]
      rfl
  | false =>
    rw [Session.children_of_open hself]
    by_cases hfull : session.reader.options.maxDepth ≤ outer.length + 1
    · rw [Tour.visit_of_full huse hself hfull]
      refine ⟨_, _, Session.withScope_of_full (h.depth_eq.symm ▸ hfull), .of_failed ?_⟩
      rw [Session.account_log, Session.reader_log, hdescend]
      exact Tour.run_failed ..
    · rw [Tour.visit_of_room rfl huse hself hfull]
      have hroom : ((Handed.met node account session).record (.descend node ())).reader.depth <
          ((Handed.met node account session).record (.descend node ())).reader.options.maxDepth :=
        Nat.lt_of_not_le (h.depth_eq.symm ▸ hfull)
      have hentered : (((Handed.met node account session).record (.descend node ())).enterScope
          (some node)).1.reader = session.reader.pushScope (some node) :=
        Session.reader_enterScope hroom
      have hless : (((Handed.met node account session).record (.descend node ())).enterScope
          (some node)).1.remainingLength = session.remainingLength :=
        Session.remainingLength_enterScope _ _
      -- inside, the reader is at the first of the children, and the mark is an older one
      have hdepth : (((Handed.met node account session).record (.descend node ())).enterScope
          (some node)).1.reader.depth = outer.length + 2 := by
        rw [hentered]
        exact congrArg (· + 1) h.depth_eq
      have hstart : node.bodyStart ≤ (((Handed.met node account session).record
          (.descend node ())).enterScope (some node)).1.reader.position := by
        rw [hentered]
        exact Nat.le_of_eq h.position_eq.symm
      have hbehind : (((Handed.met node account session).record (.descend node ())).enterScope
          (some node)).1.reader.MarkBehind := by
        rw [hentered]
        exact fun place hplace => Nat.le_of_lt (h.position_eq ▸ h.mark_lt place hplace)
      have hmark : (((Handed.met node account session).record (.descend node ())).enterScope
          (some node)).1.reader.lastClosed ≠ some node.bodyStart := by
        rw [hentered]
        exact fun heq => Nat.lt_irrefl _ (h.mark_lt _ heq)
      obtain ⟨worked, result, hdone, honTour⟩ :=
        onTour_scanChildren hact ⟨node, (policy (node :: account.seen)).signal⟩ hself
          (Nat.le_trans (Nat.le_of_eq hless) hbound)
          (Nat.lt_of_le_of_lt (Nat.le_of_eq hless) hfuel) hdepth hstart hbehind hmark
      rw [hentered, Session.account_enterScope, hdescend] at honTour
      refine ⟨_, result, Session.withScope_of_room hroom hdone, ?_⟩
      refine honTour.imp ?_ rfl ?_ ?_ (Session.account_leaveScope worked)
      · rw [Session.reader_leaveScope]
        exact Reader.Moved.leaveScope
      · rw [Session.reader_leaveScope, Reader.cursor_leaveScope]
      · rw [Session.reader_leaveScope, Reader.lastClosed_leaveScope]

/-- **A node that is descended into** is left where the enumeration of its children ends: the event
of the descent changes no reader. -/
theorem onTour_descend {act : Act Unit (List Node) Empty} {bound fuel : Nat}
    (hact : act.Tours policy bound) (h : Arrives outer node account session)
    (huse : (policy (node :: account.seen)).use = .descend)
    (hbound : session.remainingLength ≤ bound) (hfuel : session.remainingLength < fuel) :
    ∃ ended result,
      (Handed.met node account session).descend act fuel node () = some (ended, result) ∧
      OnTour policy
        (Tour.run policy session.reader.options
          (.visit policy session.reader.options.maxDepth session.reader.cursor account node outer))
        outer node session.reader ended
        (result.map fun _ => (policy (node :: account.seen)).signal) := by
  obtain ⟨worked, result, hdone, honTour⟩ := h.onTour_children hact huse hbound hfuel
  refine ⟨_, result, Session.descend_of_children hdone, ?_⟩
  exact honTour.imp id rfl rfl rfl (Session.account_record rfl rfl)

end Arrives

/-- **A policy's work is in step with its tours**,
`(perform policy.cast fuel).Tours policy (fuel - 1)`, by induction on the fuel: visits inside of a
visit have fewer bytes left. -/
theorem tours_perform (policy : Policy) (fuel : Nat) :
    (perform policy.cast fuel).Tours policy (fuel - 1) := by
  induction fuel with
  | zero => exact fun _ _ _ _ _ hbelow => absurd hbelow (Nat.not_lt_zero _)
  | succ fuel ih =>
    intro outer node account session harrives hbelow
    rw [Nat.add_sub_cancel] at hbelow
    have hstate := harrives.state_eq
    have hrun : perform policy.cast (fuel + 1) () node session =
        (policy.cast () node).run (perform policy.cast fuel) fuel session := rfl
    -- the visitor sees the node first, and then does one of three things
    cases huse : (policy (node :: account.seen)).use with
    | ignore =>
      refine ⟨_, _, ?_, harrives.onTour_ignore huse⟩
      rw [hrun]
      simp only [Policy.cast, Script.run, hstate, huse, Handed.met]
    | readBody =>
      refine ⟨_, _, ?_, harrives.onTour_readBody huse⟩
      rw [hrun]
      simp only [Policy.cast, Script.run, hstate, huse, Handed.met]
    | descend =>
      obtain ⟨ended, result, hdone, honTour⟩ :=
        harrives.onTour_descend ih huse (Nat.le_sub_one_of_lt hbelow) hbelow
      refine ⟨ended, _, ?_, honTour⟩
      rw [Handed.met] at hdone
      rw [hrun]
      simp only [Policy.cast, Script.run, hstate, huse, hdone]

/-! ## Whole parses -/

/-- Behind the root element, the tour has ended, whatever the signal is that the root was answered
with. -/
theorem Tour.run_resumed_nil (policy : Policy) (options : Options) (node : Node) (ended : Walking)
    (answer : Except Fault Signal) :
    (resumed [] node ended answer).run policy options =
      ⟨ended.reader.cursor, ended.account, answer.map fun _ => ()⟩ := by
  cases answer with
  | error fault => exact run_failed ..
  | ok signal => exact run_ended ..

/-- **The root element is in step** with the tour that begins there, `Tour.start`, when there is
room for the scope of the document. -/
theorem visitRoot_eq_tour {act : Act Unit (List Node) Empty} {policy : Policy} {bound : Nat}
    (hact : act.Tours policy bound) {session : Walking} (hbound : session.remainingLength ≤ bound)
    (hdepth : session.reader.depth = 1) (hmark : session.reader.MarkBehind)
    (haccount : session.account = .blank) (heof : session.reader.cursor.isEof = false)
    (hroom : session.reader.options.maxDepth ≠ 0) :
    ∃ ended result, session.visitRoot act () = some (ended, result) ∧
      (Tour.start policy session.reader.options session.reader.cursor).run policy
        session.reader.options = ⟨ended.reader.cursor, ended.account, result⟩ := by
  rw [Tour.start, heof, if_neg Bool.false_ne_true, if_neg hroom]
  cases hnext : session.reader.cursor.nextTag with
  | error fault =>
    refine ⟨session, _, Session.visitRoot_of_error hnext, ?_⟩
    rw [haccount]
    exact Tour.run_failed ..
  | ok tag =>
    dsimp only
    by_cases hkind : session.reader.cursor.kindOf tag = .closing
    · rw [if_pos hkind]
      refine ⟨session, _, Session.visitRoot_of_closing hnext hkind, ?_⟩
      rw [haccount]
      exact Tour.run_failed ..
    · -- a root element has no frame around it, so its tour ends with its visit
      rw [if_neg hkind]
      cases hdecode : session.reader.cursor.decodeTag session.reader.options.overflow tag with
      | error fault =>
        refine ⟨_, _, Session.visitRoot_of_visitTag hnext hkind (Session.visitTag_of_error hdecode), ?_⟩
        have hopened : (session.openNode tag).1.account = .blank :=
          (Session.account_step _ _).trans haccount
        rw [Tour.enter_of_error hdecode, Session.reader_openNode, hopened]
        exact Tour.run_failed ..
      | ok node =>
        have houter : session.reader.depth = ([] : List Frame).length + 1 := hdepth
        obtain ⟨visited, answer, hvisit, -, honTour⟩ :=
          onTour_visitTag hact hbound houter hmark hnext hdecode
        refine ⟨visited, _, Session.visitRoot_of_visitTag hnext hkind hvisit, ?_⟩
        rw [← haccount, honTour.finish_eq, Tour.run_resumed_nil]
        cases answer <;> rfl

/-- **The work of a parse is in step** with the tour of the document: the prolog, the scope of the
document and the root element. -/
theorem root_eq_tour {act : Act Unit (List Node) Empty} {policy : Policy} {bound : Nat}
    (hact : act.Tours policy bound) {session : Walking} (hbound : session.remainingLength ≤ bound)
    (hscopes : session.reader.scopes = []) (hmark : session.reader.lastClosed = none)
    (haccount : session.account = .blank) :
    ∃ ended result, session.root act () = some (ended, result) ∧
      policy.tour session.reader.options session.reader.cursor =
        ⟨ended.reader.cursor, ended.account, result⟩ := by
  have hskipped : session.skipProlog.1.account = .blank :=
    (Session.account_step _ _).trans haccount
  unfold Policy.tour
  cases hskip : session.reader.cursor.skipProlog.2.result with
  | error fault =>
    refine ⟨_, _, Session.root_of_broken hskip, ?_⟩
    rw [Session.reader_skipProlog, hskipped]
  | ok done =>
    dsimp only
    cases heof : session.reader.cursor.skipProlog.1.isEof with
    | true =>
      refine ⟨_, _, Session.root_of_empty hskip heof, ?_⟩
      rw [Tour.start, heof, if_pos rfl, Tour.run_ended, Session.reader_log, Session.account_log,
        Session.reader_skipProlog, hskipped]
    | false =>
      by_cases hfull : session.reader.options.maxDepth = 0
      · refine ⟨_, _, Session.root_of_full hskip heof hfull, ?_⟩
        rw [Tour.start, heof, if_neg Bool.false_ne_true, if_pos hfull, Tour.run_failed,
          Session.reader_log, Session.account_log, Session.reader_skipProlog, hskipped]
      · -- inside of the document's scope, the cursor and the mark are those behind the prolog
        have hentered := Session.reader_enterScope_skipProlog hscopes hfull
        have hbound' : (session.skipProlog.1.enterScope none).1.remainingLength ≤ bound := by
          rw [Session.remainingLength_enterScope]
          exact Nat.le_trans session.remainingLength_skipProlog hbound
        have hone : (session.skipProlog.1.enterScope none).1.reader.depth = 1 := by
          rw [hentered]
          rfl
        have hunmarked : (session.skipProlog.1.enterScope none).1.reader.MarkBehind := by
          intro place hplace
          rw [hentered] at hplace
          rw [hmark] at hplace
          cases hplace
        have hblank : (session.skipProlog.1.enterScope none).1.account = .blank :=
          (Session.account_enterScope _ _).trans hskipped
        have hmore : (session.skipProlog.1.enterScope none).1.reader.cursor.isEof = false := by
          rw [hentered]
          exact heof
        have hroom : (session.skipProlog.1.enterScope none).1.reader.options.maxDepth ≠ 0 := by
          rw [hentered]
          exact hfull
        obtain ⟨worked, result, hdone, htour⟩ :=
          visitRoot_eq_tour hact hbound' hone hunmarked hblank hmore hroom
        refine ⟨_, _, Session.root_of_room hskip heof hscopes hfull hdone, ?_⟩
        rw [hentered] at htour
        rw [Session.reader_leaveScope, Reader.cursor_leaveScope, Session.account_leaveScope]
        exact htour

/-- **A policy's parse is its tour.** On every document the parse ends, without open scopes, and it
comes to the same place, the same account and the same result as the tour, which keeps no mark:
`policy.tour options (.ofDocument document) = ⟨ended.reader.cursor, ended.account, result⟩`. With
it, what is to be shown of a parse by a policy can be shown of `Tour.step`, and by induction of
`Tour.run`. -/
theorem parse_eq_tour (policy : Policy) (options : Options) {document : Bytes} {fuel : Nat}
    (hfuel : document.length < fuel) :
    ∃ ended result, policy.parse fuel (.ofDocument document options) = some (ended, result) ∧
      ended.reader.scopes = [] ∧
      policy.tour options (.ofDocument document) = ⟨ended.reader.cursor, ended.account, result⟩ := by
  -- the session is at the front of the document, and has met nothing
  have hbound : ((Session.start (.ofDocument document options) [] :
      Walking).beginParse ()).remainingLength ≤ fuel - 1 := Nat.le_sub_one_of_lt hfuel
  have hblank : ((Session.start (.ofDocument document options) [] : Walking).beginParse ()).account =
      .blank := Session.account_record rfl rfl
  obtain ⟨worked, result, hdone, htour⟩ :=
    root_eq_tour (tours_perform policy fuel) hbound rfl rfl hblank
  have hrun : policy.parse fuel (.ofDocument document options) =
      some (worked.record (.parsed result), result) := Session.parse_of_root hdone
  refine ⟨_, result, hrun, ?_, ?_⟩
  · exact Session.scopes_of_parse (KeepsScopes.closed.composed.follows_perform policy.cast fuel) hrun
  · rw [Session.account_record rfl rfl]
    exact htour

/-- The document `<a><b>x</b></a>`. -/
def documentWithBody : Bytes :=
  [0x3C, 0x61, 0x3E, 0x3C, 0x62, 0x3E, 0x78, 0x3C, 0x2F, 0x62, 0x3E, 0x3C, 0x2F, 0x61, 0x3E]

/-- A tour of it reads the body of `b`, and ends behind `a`. -/
example : (readSecond.tour .lenient (.ofDocument documentWithBody)).account.bodies = [[0x78]] ∧
    (readSecond.tour .lenient (.ofDocument documentWithBody)).cursor.position = 15 := by
  decide +kernel

end TagWalk
