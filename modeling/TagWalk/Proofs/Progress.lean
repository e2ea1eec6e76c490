import TagWalk.Proofs.Course

/-! # Progress

As long as nobody sends a reader back to the front of its document, its work only ever moves on: the
cursor never goes back, tags are opened in the order of the document and do not overlap, and each of
them takes three bytes at least. So there is a bound on all work that is not itself a loop of resets.

* **`MovesOn`** — a stretch that moves on from one place to another.
* **`Act.ReturnsBelow`** — an act that ends, and does not move back, when few enough bytes are left.
* **`progress_of_run`** — work without a reset moves on, and it ends. -/

namespace TagWalk

variable {ι σ ε α : Type}

namespace Moment

/-- Whether the reader returned to the front of its document at some moment of a stretch, that is
whether `.reset` is among the events. -/
def anyResets (moments : List (Moment ι ε)) : Bool :=
  moments.any fun moment => match moment.event with
    | .reset => true
    | _ => false

/-- The node and the tag that a moment shows, if its event is a `.visit`. -/
def opened? (moment : Moment ι ε) : Option (Node × Tag) :=
  match moment.event with
  | .visit _ node tag _ => some (node, tag)
  | _ => none

/-- **The nodes that are visited in a stretch**, with the places of their tags. -/
def opened (moments : List (Moment ι ε)) : List (Node × Tag) := moments.filterMap opened?

@[simp] theorem anyResets_append (first second : List (Moment ι ε)) :
    anyResets (first ++ second) = (anyResets first || anyResets second) := List.any_append

@[simp] theorem opened_nil : opened ([] : List (Moment ι ε)) = [] := rfl

@[simp] theorem opened_append (first second : List (Moment ι ε)) :
    opened (first ++ second) = opened first ++ opened second := List.filterMap_append

end Moment

/-- **The opening tag of a visited node** is a tag of the document, `<` and `>` with something
between them, and ends where the node's body starts: `node.bodyStart = tag.stop + 1`. -/
structure IsOpened (document : Bytes) (node : Node) (tag : Tag) : Prop where
  /-- It begins with `<`. -/
  start_eq : document[tag.start]? = some Byte.lessThan
  /-- It ends with `>`. -/
  stop_eq : document[tag.stop]? = some Byte.greaterThan
  /-- Something stands between the two. -/
  start_add_two_le : tag.start + 2 ≤ tag.stop
  /-- The body starts just past it. -/
  bodyStart_eq : node.bodyStart = tag.stop + 1

/-- **A stretch of work that moves on** from the place of `before` to that of `after`, and opens
tags one behind the other. -/
structure MovesOn (before : Reader) (moments : List (Moment ι ε)) (after : Reader) : Prop where
  /-- No moment lies behind the beginning or past the end. -/
  between : ∀ moment ∈ moments, before.position ≤ moment.reader.position ∧
    moment.reader.position ≤ after.position
  /-- No moment lies behind an earlier one. -/
  ordered : moments.Pairwise fun earlier later => earlier.reader.position ≤ later.reader.position
  /-- What is opened lies in the stretch. -/
  opened : ∀ visit ∈ Moment.opened moments, IsOpened before.document visit.1 visit.2 ∧
    before.position ≤ visit.2.start ∧ visit.2.stop < after.position
  /-- Tags are opened one behind the other. -/
  disjoint : (Moment.opened moments).Pairwise fun earlier later => earlier.2.stop < later.2.start
  /-- Each of them takes three bytes at least. -/
  consumed : before.position + 3 * (Moment.opened moments).length ≤ after.position

namespace MovesOn

variable {before between after : Reader} {first second : List (Moment ι ε)}

/-- Work that moves on never ends before its beginning. -/
theorem position_le (h : MovesOn before first after) : before.position ≤ after.position :=
  Nat.le_trans (Nat.le_add_right _ _) h.consumed

/-- **One stretch after another moves on**, where both are in the same document: the place of
`between` separates what they open. -/
theorem append (h₁ : MovesOn before first between) (h₂ : MovesOn between second after)
    (hdocument : between.document = before.document) : MovesOn before (first ++ second) after := by
  -- the place in the middle separates the two stretches
  have hle₁ := h₁.position_le
  have hle₂ := h₂.position_le
  refine ⟨?_, ?_, ?_, ?_, ?_⟩
  · intro moment hm
    rcases List.mem_append.mp hm with hm | hm
    · have hmoment := h₁.between moment hm
      omega
    · have hmoment := h₂.between moment hm
      omega
  · rw [List.pairwise_append]
    refine ⟨h₁.ordered, h₂.ordered, ?_⟩
    intro earlier he later hl
    exact Nat.le_trans (h₁.between earlier he).2 (h₂.between later hl).1
  · intro visit hvisit
    rw [Moment.opened_append] at hvisit
    rcases List.mem_append.mp hvisit with hvisit | hvisit
    · obtain ⟨htag, hstart, hstop⟩ := h₁.opened visit hvisit
      exact ⟨htag, hstart, Nat.lt_of_lt_of_le hstop hle₂⟩
    · obtain ⟨htag, hstart, hstop⟩ := h₂.opened visit hvisit
      rw [hdocument] at htag
      exact ⟨htag, Nat.le_trans hle₁ hstart, hstop⟩
  · rw [Moment.opened_append, List.pairwise_append]
    refine ⟨h₁.disjoint, h₂.disjoint, ?_⟩
    intro earlier he later hl
    exact Nat.lt_of_lt_of_le (h₁.opened earlier he).2.2 (h₂.opened later hl).2.1
  · -- the tags of both stretches are counted together
    have hconsumed₁ := h₁.consumed
    have hconsumed₂ := h₂.consumed
    rw [Moment.opened_append, List.length_append]
    omega

/-- Visited nodes have their bodies one behind the other: `bodyStart` increases along the visits. -/
theorem bodyStart_pairwise (h : MovesOn before first after) :
    ((Moment.opened first).map (·.1.bodyStart)).Pairwise (· < ·) := by
  rw [List.pairwise_map]
  apply h.disjoint.imp_of_mem
  intro earlier later he hl hlt
  have hearlier := (h.opened earlier he).1.bodyStart_eq
  obtain ⟨⟨-, -, hlong, hlater⟩, -, -⟩ := h.opened later hl
  omega

/-- No more nodes are visited than three bytes each allow: `(document.length - position) / 3`, from
the place where the stretch begins. -/
theorem length_opened_le (h : MovesOn before first after)
    (hdocument : after.document = before.document) :
    (Moment.opened first).length ≤ (before.document.length - before.position) / 3 := by
  have hconsumed := h.consumed
  have hend : after.position ≤ after.document.length := after.cursor.position_le
  rw [hdocument] at hend
  omega

/-- A stretch without visits moves on when it is all at one place, and that is not behind. -/
theorem of_still (hplace : ∀ moment ∈ first, moment.reader.position = after.position)
    (hvisits : ∀ moment ∈ first, moment.opened? = none) (hle : before.position ≤ after.position) :
    MovesOn before first after := by
  have hopened : Moment.opened first = [] := by
    rw [Moment.opened, List.filterMap_eq_nil_iff]
    exact hvisits
  refine ⟨?_, ?_, ?_, ?_, ?_⟩
  · intro moment hm
    rw [hplace moment hm]
    exact ⟨hle, Nat.le_refl _⟩
  · apply List.pairwise_of_forall_mem_list
    intro earlier he later hl
    exact Nat.le_of_eq ((hplace earlier he).trans (hplace later hl).symm)
  · intro visit hvisit
    rw [hopened] at hvisit
    cases hvisit
  · rw [hopened]
    exact .nil
  · rw [hopened]
    exact hle

end MovesOn

/-! ## Reading and opening -/

namespace Reader

variable {reader : Reader} {tag : Tag} {node : Node}

/-- A body is read from the same document. -/
@[simp] theorem document_readBody (reader : Reader) (node : Node) :
    (reader.readBody node).1.document = reader.document := by
  unfold readBody
  split
  · rfl
  · dsimp only
    split <;> rfl

/-- **Reading a body never moves a reader back**, wherever the body stands: the cursor goes to the
greater of `reader.position` and the end of the closing tag. -/
theorem position_le_readBody (reader : Reader) (node : Node) :
    reader.position ≤ (reader.readBody node).1.position := by
  have hend : reader.position ≤ reader.cursor.document.length := reader.cursor.position_le
  unfold readBody
  split
  · exact Nat.le_refl _
  · dsimp only
    split
    · exact Nat.le_refl _
    · show reader.position ≤ min (max reader.position _) reader.cursor.document.length
      exact Nat.le_min.mpr ⟨Nat.le_max_left _ _, hend⟩

/-- A reader that passes its next tag ends just past it, at `tag.stop + 1`. -/
theorem position_passTag (hnext : reader.cursor.nextTag = .ok tag) :
    (reader.passTag tag).position = tag.stop + 1 :=
  Cursor.position_passTag hnext

/-- A reader that passes its next tag moves on. -/
theorem position_le_passTag (hnext : reader.cursor.nextTag = .ok tag) :
    reader.position ≤ (reader.passTag tag).position := by
  obtain ⟨hstart, hstop, -⟩ := Cursor.nextTag_bounds hnext
  rw [position_passTag hnext]
  show reader.cursor.position ≤ tag.stop + 1
  omega

/-- **A tag that opens a node has a name**, so it is no empty pair of brackets, and
`tag.start + 2 ≤ tag.stop`. -/
theorem isOpened_of_openNode (hnext : reader.cursor.nextTag = .ok tag)
    (hnode : (reader.openNode tag).2.result = .ok node) : IsOpened reader.document node tag := by
  obtain ⟨hstart, hstop⟩ := Cursor.document_of_nextTag hnext
  obtain ⟨-, hlt, -⟩ := Cursor.nextTag_bounds hnext
  -- an empty pair of brackets holds no name, and is no declaration
  have hlong : tag.start + 1 ≠ tag.stop := by
    intro heq
    have hempty : reader.document.slice (tag.start + 1) tag.stop = [] := by
      simp [Bytes.slice, heq]
    rw [openNode, hempty] at hnode
    cases hnode
  have hbody : node.bodyStart = (reader.passTag tag).position := by
    simp only [openNode] at hnode
    cases hdecoded : (Declaration.decode reader.options.overflow tag.start
        (reader.document.slice (tag.start + 1) tag.stop)).result with
    | error fault =>
      rw [hdecoded] at hnode
      cases hnode
    | ok declaration =>
      rw [hdecoded] at hnode
      cases hnode
      rfl
  exact ⟨hstart, hstop, by omega, hbody.trans (position_passTag hnext)⟩

end Reader

/-! ## The course of the cursor -/

/-- **Work that advances**: it stays with its document, and where no moment is a reset,
`MovesOn before moments after`. -/
structure Advances (before : Reader) (moments : List (Moment ι ε)) (after : Reader) : Prop where
  /-- The document stays. -/
  document_eq : after.document = before.document
  /-- Without a reset, the work moves on. -/
  movesOn (h : Moment.anyResets moments = false) : MovesOn before moments after

namespace Advances

variable {before between after reader : Reader} {first second inner : List (Moment ι ε)}

/-- One stretch after another advances. -/
theorem append (h₁ : Advances before first between) (h₂ : Advances between second after) :
    Advances before (first ++ second) after := by
  refine ⟨h₂.document_eq.trans h₁.document_eq, ?_⟩
  intro hsteady
  rw [Moment.anyResets_append, Bool.or_eq_false_iff] at hsteady
  exact (h₁.movesOn hsteady.1).append (h₂.movesOn hsteady.2) h₁.document_eq

/-- A stretch without visits advances when it is all at one place, and that is not behind. -/
theorem of_still (hplace : ∀ moment ∈ first, moment.reader.position = after.position)
    (hvisits : ∀ moment ∈ first, moment.opened? = none) (hdocument : after.document = before.document)
    (hle : before.position ≤ after.position) : Advances before first after :=
  ⟨hdocument, fun _ => .of_still hplace hvisits hle⟩

/-- A single event that is no visit. -/
theorem of_event (level : Nat) {event : Event ι ε}
    (hvisit : (⟨level, after, event⟩ : Moment ι ε).opened? = none)
    (hdocument : after.document = before.document) (hle : before.position ≤ after.position) :
    Advances before [⟨level, after, event⟩] after := by
  refine of_still ?_ ?_ hdocument hle
  · intro moment hm
    rw [List.mem_singleton.mp hm]
  · intro moment hm
    rw [List.mem_singleton.mp hm]
    exact hvisit

/-- Records that are logged at one place. -/
theorem of_logs (level : Nat) (records : List LogRecord)
    (hdocument : after.document = before.document) (hle : before.position ≤ after.position) :
    Advances before (Moment.logs level after records : List (Moment ι ε)) after := by
  refine of_still ?_ ?_ hdocument hle
  · intro moment hm
    obtain ⟨record, -, rfl⟩ := List.mem_map.mp hm
    rfl
  · intro moment hm
    obtain ⟨record, -, rfl⟩ := List.mem_map.mp hm
    rfl

/-- **Reading a body advances**, whoever reads it. -/
theorem of_readBody (level : Nat) (reader : Reader) (node : Node)
    {event : Except Fault Bytes → Event ι ε}
    (hvisit : ∀ shown result, (⟨level, shown, event result⟩ : Moment ι ε).opened? = none) :
    Advances reader (Moment.reported level (reader.readBody node).1 (reader.readBody node).2 event)
      (reader.readBody node).1 :=
  (of_logs level _ (reader.document_readBody node) (reader.position_le_readBody node)).append
    (of_event level (hvisit _ _) rfl (Nat.le_refl _))

/-- **Opening a node for a visitor advances**: the visit is the only one in its stretch, and the tag
lies between the places of `reader` and of `reader.passTag tag`. -/
theorem of_visit (level : Nat) {tag : Tag} {node : Node} (visitor : ι)
    (hnext : reader.cursor.nextTag = .ok tag)
    (hnode : (reader.openNode tag).2.result = .ok node) :
    Advances reader
      (Moment.logs level (reader.passTag tag) (reader.openNode tag).2.log ++
        [(⟨level, reader.passTag tag, .visit visitor node tag reader.position⟩ : Moment ι ε)])
      (reader.passTag tag) := by
  refine ⟨rfl, ?_⟩
  intro _
  -- the tag begins at the place of the reader or behind it
  have hopened := Reader.isOpened_of_openNode hnext hnode
  have hposition := Reader.position_passTag hnext
  have hstart : reader.position ≤ tag.start := (Cursor.nextTag_bounds hnext).1
  have hlong := hopened.start_add_two_le
  have hadvances : Advances reader
      (Moment.logs level (reader.passTag tag) (reader.openNode tag).2.log : List (Moment ι ε))
      (reader.passTag tag) := of_logs level _ rfl (Reader.position_le_passTag hnext)
  have hlogs := hadvances.movesOn (by simp [Moment.anyResets, Moment.logs])
  have hnone : Moment.opened (Moment.logs level (reader.passTag tag) (reader.openNode tag).2.log :
      List (Moment ι ε)) = [] := by
    rw [Moment.opened, List.filterMap_eq_nil_iff]
    intro moment hm
    obtain ⟨record, -, rfl⟩ := List.mem_map.mp hm
    rfl
  -- the visit is the only one in the stretch
  have hone : Moment.opened (Moment.logs level (reader.passTag tag) (reader.openNode tag).2.log ++
      [(⟨level, reader.passTag tag, .visit visitor node tag reader.position⟩ : Moment ι ε)]) =
        [(node, tag)] := by
    rw [Moment.opened_append, hnone]
    rfl
  refine ⟨?_, ?_, ?_, ?_, ?_⟩
  · intro moment hm
    rcases List.mem_append.mp hm with hm | hm
    · exact hlogs.between moment hm
    · rw [List.mem_singleton.mp hm]
      exact ⟨Reader.position_le_passTag hnext, Nat.le_refl _⟩
  · rw [List.pairwise_append]
    refine ⟨hlogs.ordered, List.pairwise_singleton _ _, ?_⟩
    intro earlier he later hl
    rw [List.mem_singleton.mp hl]
    exact (hlogs.between earlier he).2
  · intro visit hvisit
    rw [hone] at hvisit
    rw [List.mem_singleton.mp hvisit, hposition]
    exact ⟨hopened, hstart, Nat.lt_succ_self _⟩
  · rw [hone]
    exact List.pairwise_singleton _ _
  · rw [hone, hposition, List.length_singleton]
    omega

/-- **Work in a scope advances** when the work inside does: neither entering a scope nor leaving it
moves a cursor. -/
theorem of_scoped {level : Nat} {element : Option Node} {result : Except Fault Unit}
    (h : Course.Scoped Advances level element before inner after result) :
    Advances before inner after := by
  cases h with
  | refused full => exact of_event level rfl rfl (Nat.le_refl _)
  | @entered inner worked _ room work =>
    have henter : Advances before [(⟨level, before.pushScope element,
        .log (.enterScope (Scope.of element).element before.depth)⟩ : Moment ι ε)]
        (before.pushScope element) := of_event level rfl rfl (Nat.le_refl _)
    have hleave : Advances worked [(⟨level, worked.leaveScope.1, .log worked.leaveScope.2⟩ :
        Moment ι ε)] worked.leaveScope.1 := by
      refine of_event level rfl ?_ ?_
      · exact congrArg Cursor.document worked.cursor_leaveScope
      · exact Nat.le_of_eq (congrArg Cursor.position worked.cursor_leaveScope).symm
    exact henter.append (work.append hleave)

/-- **The work of a parse advances** when the work inside does; before it, a prolog is skipped. -/
theorem of_rooted {level : Nat} {result : Except Fault Unit}
    (h : Course.Rooted Advances level before inner after result) : Advances before inner after := by
  have hdocument : (Course.behindProlog before).document = before.document :=
    before.cursor.document_skipProlog
  have hle : before.position ≤ (Course.behindProlog before).position :=
    Nat.le_trans (Nat.le_add_right _ _) before.cursor.position_add_le_skipProlog
  cases h with
  | broken => exact of_logs level _ hdocument hle
  | empty => exact of_logs level _ hdocument hle
  | element _ _ work => exact (of_logs level _ hdocument hle).append (of_scoped work)

/-- **All work advances**: `Advances` is closed under what a run is made of, so that it holds of
every run. -/
theorem closed : Course.Closed (Advances : Course ι ε) where
  nil reader := of_still (fun _ hm => absurd hm List.not_mem_nil)
    (fun _ hm => absurd hm List.not_mem_nil) rfl (Nat.le_refl _)
  append := append
  remark level reader note := of_event level rfl rfl (Nat.le_refl _)
  reset level reader := ⟨rfl, fun hsteady => by cases hsteady⟩
  readBody level reader node := of_readBody level reader node fun _ _ => rfl
  skip level reader node := of_readBody level reader node fun _ _ => rfl
  skipMarkup level _ _ next _ := of_event level rfl rfl (Reader.position_le_passTag next)
  close level _ _ _ next _ := of_event level rfl rfl (Reader.position_le_passTag next)
  broken level _ _ _ next _ _ := of_logs level _ rfl (Reader.position_le_passTag next)
  visit level reader after tag node inner visitor result next _ decoded work := by
    have hvisit := of_visit (ε := ε) level visitor next decoded
    have hvisited : Advances after [(⟨level, after, .visited node result⟩ : Moment ι ε)] after :=
      of_event level rfl rfl (Nat.le_refl _)
    rw [← List.singleton_append, ← List.append_assoc]
    exact hvisit.append (work.append hvisited)
  descendEmpty level reader parent visitor _ := by
    have hdescend : Advances reader [(⟨level, reader, .descend parent visitor⟩ : Moment ι ε)]
        reader := of_event level rfl rfl (Nat.le_refl _)
    exact hdescend.append (of_event level rfl rfl (Nat.le_refl _))
  descend level reader after parent inner result visitor _ work := by
    have hdescend : Advances reader [(⟨level, reader, .descend parent visitor⟩ : Moment ι ε)]
        reader := of_event level rfl rfl (Nat.le_refl _)
    have hdescended : Advances after [(⟨level, after, .descended parent result⟩ : Moment ι ε)]
        after := of_event level rfl rfl (Nat.le_refl _)
    exact hdescend.append ((of_scoped work).append hdescended)
  parse level reader after inner result visitor work := by
    have hparse : Advances reader [(⟨level, reader.dropScopes, .parse visitor⟩ : Moment ι ε)]
        reader.dropScopes := of_event level rfl rfl (Nat.le_refl _)
    have hparsed : Advances after [(⟨level, after, .parsed result⟩ : Moment ι ε)] after :=
      of_event level rfl rfl (Nat.le_refl _)
    exact hparse.append ((of_rooted work).append hparsed)

end Advances

/-! ## Work that ends -/

/-- How many bytes a session has left: the measure by which its work ends. -/
def Session.remainingLength (session : Session ι σ ε) : Nat := session.reader.cursor.remainingLength

/-- **Work ends**, and leaves no more bytes than the session had: the outcome is
`some (after, value)` with `after.remainingLength ≤ session.remainingLength`. -/
def Session.Ends (session : Session ι σ ε) (outcome : Outcome ι σ ε α) : Prop :=
  ∃ after value, outcome = some (after, value) ∧ after.remainingLength ≤ session.remainingLength

/-- **The work of visitors ends** when fewer than `bound` bytes are left: `session.Ends (act …)` for
every session with `session.remainingLength < bound`. -/
def Act.ReturnsBelow (act : Act ι σ ε) (bound : Nat) : Prop :=
  ∀ visitor node (session : Session ι σ ε), session.remainingLength < bound →
    session.Ends (act visitor node session)

/-- A script is **forward** when it asks for nothing that brings bytes back: neither for a reset nor
for another document. -/
def Script.IsForward : Script ι σ ε α → Prop
  | .done _ => True
  | .readBody _ next => ∀ result, (next result).IsForward
  | .descend _ _ next => ∀ result, (next result).IsForward
  | .parse _ next => ∀ result, (next result).IsForward
  | .parseOther .. => False
  | .reset _ => False
  | .inspect next => ∀ reader, (next reader).IsForward
  | .get next => ∀ state, (next state).IsForward
  | .set _ next => next.IsForward
  | .remark _ next => next.IsForward

/-- A reader that is further in its document, `before.position ≤ after.position`, has no more bytes
left. -/
theorem Reader.remainingLength_le {before after : Reader} (hdocument : after.document = before.document)
    (hle : before.position ≤ after.position) :
    after.cursor.remainingLength ≤ before.cursor.remainingLength := by
  show after.document.length - after.position ≤ before.document.length - before.position
  rw [hdocument]
  omega

namespace Session

variable {act : Act ι σ ε} {session : Session ι σ ε} {bound : Nat}

@[simp] theorem remainingLength_record (session : Session ι σ ε) (event : Event ι ε) :
    (session.record event).remainingLength = session.remainingLength := rfl

/-- What follows a visit never moves a reader back. -/
theorem remainingLength_afterVisit (session : Session ι σ ε) (child : Node) (signal : Signal) :
    (session.afterVisit child signal).1.remainingLength ≤ session.remainingLength := by
  have hskip : (session.skip child).1.remainingLength ≤ session.remainingLength := by
    rw [remainingLength, reader_skip]
    exact Reader.remainingLength_le (session.reader.document_readBody child)
      (session.reader.position_le_readBody child)
  rcases session.afterVisit_cases child signal with
    ⟨-, hstop⟩ | ⟨-, -, hpassed⟩ | ⟨-, -, ⟨fault, -, hunread⟩ | ⟨body, -, hread⟩⟩
  · exact Nat.le_of_eq (congrArg (·.1.remainingLength) hstop)
  · exact Nat.le_of_eq (congrArg (·.1.remainingLength) hpassed)
  · rw [hunread]
    exact hskip
  · rw [hread]
    exact hskip

/-- **A tag that is opened takes bytes**, and its visit ends when the visitor's work does:
`after.remainingLength < session.remainingLength`, whatever comes of the visit. -/
theorem ends_visitTag (hact : act.ReturnsBelow bound) (hbound : session.remainingLength ≤ bound)
    (visitor : ι) {tag : Tag} (hnext : session.reader.cursor.nextTag = .ok tag) :
    ∃ after result, session.visitTag act visitor tag = some (after, result) ∧
      after.remainingLength < session.remainingLength := by
  have hpassed : (session.openNode tag).1.remainingLength < session.remainingLength := by
    rw [remainingLength, reader_openNode]
    exact Cursor.remainingLength_passTag hnext
  cases hopen : (session.openNode tag).2 with
  | error fault => exact ⟨_, _, visitTag_of_error hopen, hpassed⟩
  | ok node =>
    obtain ⟨worked, answer, hwork, hle⟩ := hact visitor node
      ((session.openNode tag).1.record (.visit visitor node tag session.reader.position))
      (Nat.lt_of_lt_of_le hpassed hbound)
    exact ⟨_, _, visitTag_of_ok hopen hwork, Nat.lt_of_le_of_lt hle hpassed⟩

/-- **One tag among the children** is dealt with, and takes bytes if there may be `.more`. -/
theorem ends_childStep (hact : act.ReturnsBelow bound) (hbound : session.remainingLength ≤ bound)
    (parent : Node) (visitor : ι) :
    ∃ after progress, session.childStep act parent visitor = some (after, progress) ∧
      after.remainingLength ≤ session.remainingLength ∧
        (progress = .more → after.remainingLength < session.remainingLength) := by
  cases hnext : session.reader.cursor.nextTag with
  | error fault => exact ⟨_, _, childStep_of_error hnext, Nat.le_refl _, fun h => by cases h⟩
  | ok tag =>
    have hpassed := Cursor.remainingLength_passTag hnext
    cases hkind : session.reader.cursor.kindOf tag with
    -- in each of these cases the tag is passed, which takes bytes
    | closing =>
      exact ⟨_, _, childStep_of_closing hnext hkind, Nat.le_of_lt hpassed, fun h => by cases h⟩
    | markup =>
      exact ⟨_, _, childStep_of_markup hnext hkind, Nat.le_of_lt hpassed, fun _ => hpassed⟩
    | element =>
      obtain ⟨visited, result, hvisit, hlt⟩ := ends_visitTag hact hbound visitor hnext
      rcases result with fault | ⟨child, signal⟩
      · exact ⟨_, _, childStep_of_failed hnext hkind hvisit, Nat.le_of_lt hlt, fun h => by cases h⟩
      · have hafter := Nat.lt_of_le_of_lt (visited.remainingLength_afterVisit child signal) hlt
        exact ⟨_, _, childStep_of_visited hnext hkind hvisit, Nat.le_of_lt hafter, fun _ => hafter⟩

/-- **The children of a node come to an end**, since each tag among them takes bytes: any `fuel`
above `session.remainingLength` is enough. -/
theorem ends_scanChildren (hact : act.ReturnsBelow bound)
    (hbound : session.remainingLength ≤ bound) (parent : Node) (visitor : ι) {fuel : Nat}
    (hfuel : session.remainingLength < fuel) :
    session.Ends (scanChildren act parent visitor fuel session) := by
  induction fuel generalizing session with
  | zero => exact absurd hfuel (Nat.not_lt_zero _)
  | succ fuel ih =>
    obtain ⟨after, progress, hstep, hle, hmore⟩ := ends_childStep hact hbound parent visitor
    cases progress with
    | finished result => exact ⟨after, result, scanChildren_of_finished hstep, hle⟩
    | more =>
      -- a step after which there may be more has taken bytes
      have hlt := hmore rfl
      obtain ⟨ended, result, hrest, hrestLe⟩ :=
        ih (Nat.le_trans hle hbound) (Nat.lt_of_lt_of_le hlt (Nat.le_of_lt_succ hfuel))
      exact ⟨ended, result, (scanChildren_of_more hstep).trans hrest, Nat.le_trans hrestLe hle⟩

/-- Skipping the prolog never moves a reader back. -/
theorem remainingLength_skipProlog (session : Session ι σ ε) :
    session.skipProlog.1.remainingLength ≤ session.remainingLength := by
  have hle := session.reader.cursor.position_add_le_skipProlog
  rw [remainingLength, reader_skipProlog]
  show session.reader.cursor.skipProlog.1.document.length -
      session.reader.cursor.skipProlog.1.position ≤
    session.reader.cursor.document.length - session.reader.cursor.position
  rw [Cursor.document_skipProlog]
  omega

/-- Entering a scope moves no cursor. -/
theorem remainingLength_enterScope (session : Session ι σ ε) (element : Option Node) :
    (session.enterScope element).1.remainingLength = session.remainingLength := by
  rw [remainingLength, enterScope, reader_step, Reader.enterScope]
  split <;> rfl

/-- Leaving a scope moves no cursor. -/
theorem remainingLength_leaveScope (session : Session ι σ ε) :
    session.leaveScope.remainingLength = session.remainingLength := by
  rw [remainingLength, reader_leaveScope, Reader.cursor_leaveScope]
  rfl

/-- **Work in a scope ends** when the work inside it does, which begins at
`(session.enterScope element).1`. -/
theorem ends_withScope {element : Option Node}
    {work : Session ι σ ε → Outcome ι σ ε (Except Fault Unit)}
    (hwork : (session.enterScope element).1.Ends (work (session.enterScope element).1)) :
    session.Ends (session.withScope element work) := by
  by_cases hfull : session.reader.options.maxDepth ≤ session.reader.depth
  · refine ⟨_, _, withScope_of_full hfull, ?_⟩
    rw [remainingLength, reader_log]
    exact Nat.le_of_eq rfl
  · obtain ⟨worked, result, hdone, hle⟩ := hwork
    refine ⟨_, _, withScope_of_room (Nat.lt_of_not_le hfull) hdone, ?_⟩
    rw [remainingLength_leaveScope]
    exact Nat.le_trans hle (Nat.le_of_eq (session.remainingLength_enterScope element))

/-- **A descent ends**, with any `fuel` above `session.remainingLength`, where the act returns below
as many bytes. -/
theorem ends_descend (hact : act.ReturnsBelow bound) (hbound : session.remainingLength ≤ bound)
    (parent : Node) (visitor : ι) {fuel : Nat} (hfuel : session.remainingLength < fuel) :
    session.Ends (session.descend act fuel parent visitor) := by
  have hchildren : (session.record (.descend parent visitor)).Ends
      ((session.record (.descend parent visitor)).children act fuel parent visitor) := by
    cases hclosed : parent.selfClosing with
    | true => exact ⟨_, _, children_of_selfClosing hclosed, Nat.le_refl _⟩
    | false =>
      rw [children_of_open hclosed]
      apply ends_withScope (ends_scanChildren hact ?_ parent visitor ?_)
      · rwa [remainingLength_enterScope, remainingLength_record]
      · rwa [remainingLength_enterScope, remainingLength_record]
  obtain ⟨worked, result, hdone, hle⟩ := hchildren
  exact ⟨_, result, descend_of_children hdone, hle⟩

/-- The root element is dealt with. -/
theorem ends_visitRoot (hact : act.ReturnsBelow bound) (hbound : session.remainingLength ≤ bound)
    (visitor : ι) : session.Ends (session.visitRoot act visitor) := by
  cases hnext : session.reader.cursor.nextTag with
  | error fault => exact ⟨_, _, visitRoot_of_error hnext, Nat.le_refl _⟩
  | ok tag =>
    by_cases hkind : session.reader.cursor.kindOf tag = .closing
    · exact ⟨_, _, visitRoot_of_closing hnext hkind, Nat.le_refl _⟩
    · obtain ⟨visited, result, hvisit, hlt⟩ := ends_visitTag hact hbound visitor hnext
      exact ⟨_, _, visitRoot_of_visitTag hnext hkind hvisit, Nat.le_of_lt hlt⟩

/-- **A parse ends** where the work of the root's visitor does: it skips the prolog first, which
moves no reader back. -/
theorem ends_parse (hact : act.ReturnsBelow bound) (hbound : session.remainingLength ≤ bound)
    (visitor : ι) : session.Ends (session.parse act visitor) := by
  have hskipped : (session.beginParse visitor).skipProlog.1.remainingLength ≤
      session.remainingLength := (session.beginParse visitor).remainingLength_skipProlog
  have hroot : session.Ends ((session.beginParse visitor).root act visitor) := by
    -- the prolog is broken, is all there is, or ends at the root element
    cases hskip : (session.beginParse visitor).reader.cursor.skipProlog.2.result with
    | error fault => exact ⟨_, _, root_of_broken hskip, hskipped⟩
    | ok done =>
      cases heof : (session.beginParse visitor).reader.cursor.skipProlog.1.isEof with
      | true =>
        refine ⟨_, _, root_of_empty hskip heof, ?_⟩
        rwa [remainingLength, reader_log]
      | false =>
        have hentered : ((session.beginParse visitor).skipProlog.1.enterScope none).1.remainingLength ≤
            bound := by
          rw [remainingLength_enterScope]
          exact Nat.le_trans hskipped hbound
        obtain ⟨worked, result, hdone, hle⟩ :=
          ends_withScope (ends_visitRoot hact hentered visitor)
        refine ⟨worked, result, ?_, Nat.le_trans hle hskipped⟩
        rw [root_of_element hskip heof, hdone]
  obtain ⟨worked, result, hdone, hle⟩ := hroot
  exact ⟨_, result, parse_of_root hdone, hle⟩

/-- Work that goes on after work that has ended, with no more bytes than before:
`after.remainingLength ≤ session.remainingLength`. -/
theorem Ends.of_le {after : Session ι σ ε} {outcome : Outcome ι σ ε α} (h : after.Ends outcome)
    (hle : after.remainingLength ≤ session.remainingLength) : session.Ends outcome := by
  obtain ⟨ended, value, hdone, hrest⟩ := h
  exact ⟨ended, value, hdone, Nat.le_trans hrest hle⟩

end Session

namespace Script

open Session

/-- **A forward script ends**, request by request, by induction on the script: each request `Ends`,
and the script goes on with no more bytes than there were. -/
theorem ends_run {act : Act ι σ ε} {bound fuel : Nat} (hact : act.ReturnsBelow bound)
    {script : Script ι σ ε α} (hforward : script.IsForward) {session : Session ι σ ε}
    (hbound : session.remainingLength ≤ bound) (hfuel : session.remainingLength < fuel) :
    session.Ends (script.run act fuel session) := by
  induction script generalizing session with
  | done value => exact ⟨session, value, rfl, Nat.le_refl _⟩
  | readBody node next ih =>
    -- reading a body moves on, so what comes behind it has no more bytes
    have hle : (session.readBody node).1.remainingLength ≤ session.remainingLength := by
      rw [Session.remainingLength, reader_readBody]
      exact Reader.remainingLength_le (session.reader.document_readBody node)
        (session.reader.position_le_readBody node)
    have hrest := ih _ (hforward (session.readBody node).2) (Nat.le_trans hle hbound)
      (Nat.lt_of_le_of_lt hle hfuel)
    exact hrest.of_le hle
  | descend parent visitor next ih =>
    obtain ⟨worked, result, hdone, hle⟩ := ends_descend hact hbound parent visitor hfuel
    have hrest := ih _ (hforward result) (Nat.le_trans hle hbound) (Nat.lt_of_le_of_lt hle hfuel)
    rw [run, hdone]
    exact hrest.of_le hle
  | parse visitor next ih =>
    obtain ⟨worked, result, hdone, hle⟩ := ends_parse hact hbound visitor
    have hrest := ih _ (hforward result) (Nat.le_trans hle hbound) (Nat.lt_of_le_of_lt hle hfuel)
    rw [run, hdone]
    exact hrest.of_le hle
  | parseOther => exact hforward.elim
  | reset => exact hforward.elim
  | inspect next ih => exact ih _ (hforward _) hbound hfuel
  | get next ih => exact ih _ (hforward _) hbound hfuel
  | set state next ih => exact ih hforward hbound hfuel
  | remark note next ih => exact ih hforward hbound hfuel

end Script

/-- **Forward visitors end**: `(perform cast fuel).ReturnsBelow (fuel - 1)`, by induction on the
fuel, since what a visitor calls has fewer bytes left. -/
theorem returnsBelow_perform {cast : Cast ι σ ε} (hforward : ∀ visitor node,
    (cast visitor node).IsForward) (fuel : Nat) : (perform cast fuel).ReturnsBelow (fuel - 1) := by
  induction fuel with
  | zero => exact fun _ _ _ hsession => absurd hsession (Nat.not_lt_zero _)
  | succ fuel ih =>
    intro visitor node session hsession
    rw [Nat.add_sub_cancel] at hsession
    exact Script.ends_run ih (hforward visitor node) (Nat.le_sub_one_of_lt hsession) hsession

/-! ## Whole runs -/

/-- **Progress.** A run without a reset `MovesOn`: the cursor never goes back, tags are opened one
behind the other and so are the bodies of their nodes, and there are at most
`(document.length - position) / 3` visits. And so things end: the declarations of a prolog take
three bytes each, the children of a node come to an end whenever the work on each of them does and
does not move back, and forward scripts end,
`session.Ends (script.run (perform cast calls) fuel session)`, with whatever forward visitors they
call, as soon as `calls` and `fuel` are greater than `session.remainingLength`. -/
theorem progress_of_run (cast : Cast ι σ ε) (calls fuel : Nat) (session : Session ι σ ε) :
    (∀ (α : Type) (script : Script ι σ ε α) ended value,
        script.run (perform cast calls) fuel session = some (ended, value) →
          Moment.anyResets (ended.since session) = false →
            MovesOn session.reader (ended.since session) ended.reader ∧
              ((Moment.opened (ended.since session)).map (·.1.bodyStart)).Pairwise (· < ·) ∧
              (Moment.opened (ended.since session)).length ≤
                (session.reader.document.length - session.reader.position) / 3) ∧
      3 * session.reader.cursor.skipProlog.2.log.length ≤ session.remainingLength ∧
      (∀ (act : Act ι σ ε) parent visitor enough,
        act.ReturnsBelow session.remainingLength → session.remainingLength < enough →
          session.Ends (Session.scanChildren act parent visitor enough session)) ∧
      ((∀ visitor node, (cast visitor node).IsForward) →
        session.remainingLength < calls → session.remainingLength < fuel →
          ∀ (α : Type) (script : Script ι σ ε α), script.IsForward →
            session.Ends (script.run (perform cast calls) fuel session)) := by
  have hcomposed : Course.Composed (Advances : Course ι ε) := Advances.closed.composed
  refine ⟨?_, ?_, ?_, ?_⟩
  · intro α script ended value hrun hsteady
    have hadvances := (hcomposed.follows_run (hcomposed.follows_perform cast calls) hrun).since
    have hmoves := hadvances.movesOn hsteady
    exact ⟨hmoves, hmoves.bodyStart_pairwise, hmoves.length_opened_le hadvances.document_eq⟩
  · have hle := session.reader.cursor.position_add_le_skipProlog
    have hend := session.reader.cursor.skipProlog.1.position_le
    rw [Cursor.document_skipProlog] at hend
    show _ ≤ session.reader.cursor.document.length - session.reader.cursor.position
    omega
  · intro act parent visitor enough hact henough
    exact Session.ends_scanChildren hact (Nat.le_refl _) parent visitor henough
  · intro hforward hcalls hfuel α script hscript
    exact Script.ends_run (returnsBelow_perform hforward calls) hscript
      (Nat.le_sub_one_of_lt hcalls) hfuel

/-- The visitor that descends into every node. -/
def descendAll : Cast Unit Unit Empty := fun _ node =>
  .descend node () fun result => .done (result.map fun _ => .proceed)

/-- A session at the content `<b>x</b>` of an element `a`. -/
def sessionInA : Session Unit Unit Empty :=
  .start (.ofDocument
    [0x3C, 0x62, 0x3E, 0x78, 0x3C, 0x2F, 0x62, 0x3E, 0x3C, 0x2F, 0x61, 0x3E] .lenient) ()

/-- The script that descends into `a`. -/
def intoA : Script Unit Unit Empty (Except Fault Unit) :=
  .descend ⟨⟨[0x61], .empty, false⟩, 0⟩ () .done

/-- Descending into everything in `a` is forward; it moves on, and ends. -/
theorem progress_of_run_descendAll :
    (∀ visitor node, (descendAll visitor node).IsForward) ∧
      ∃ ended, intoA.run (perform descendAll 13) 13 sessionInA = some (ended, .ok ()) ∧
        Moment.anyResets (ended.since sessionInA) = false ∧
        MovesOn sessionInA.reader (ended.since sessionInA) ended.reader ∧
        (Moment.opened (ended.since sessionInA)).length = 1 ∧
        ended.remainingLength ≤ sessionInA.remainingLength := by
  obtain ⟨hmoves, -, -, hends⟩ := progress_of_run descendAll 13 13 sessionInA
  have hforward : ∀ visitor node, (descendAll visitor node).IsForward := fun _ _ _ => trivial
  have hrun : ∃ ended, intoA.run (perform descendAll 13) 13 sessionInA = some (ended, .ok ()) ∧
      Moment.anyResets (ended.since sessionInA) = false ∧
      (Moment.opened (ended.since sessionInA)).length = 1 := ⟨_, rfl, rfl, rfl⟩
  obtain ⟨ended, hdone, hsteady, hcount⟩ := hrun
  obtain ⟨after, value, hafter, hle⟩ :=
    hends hforward (by decide) (by decide) _ intoA fun _ => trivial
  obtain ⟨rfl, -⟩ := Prod.mk.inj (Option.some.inj (hdone.symm.trans hafter))
  exact ⟨hforward, ended, hdone, hsteady, (hmoves _ intoA ended _ hdone hsteady).1, hcount, hle⟩

end TagWalk
