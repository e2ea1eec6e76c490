import TagWalk.Proofs.Mark
import Mathlib.Data.List.Nodup

/-! # Fresh marks

A mark on a child says that its closing tag was passed, but not when. On a reader that never returns
to the front of its document, with visitors that ask only for nodes they were handed, it was passed
during the child's visit: before the visit nobody had the node, and no other node has its body at the
same place.

* **`Moment.UsesHanded`** — visitors ask only for what they were handed.
* **`Moment.IsBalanced`** — every visit that begins also ends.
* **`Orderly`** — what every such run is like.
* **`mark_of_run`** — a mark on a node was set during its visit, by what consumed its closing tag, and
  what consumes the closing tag last leaves the mark. -/

namespace TagWalk

variable {ι σ ε α : Type}

namespace Moment

/-! ## Nodes that are handed out -/

/-- The nodes that visitors were handed in a stretch, in the order of their visits. -/
def handed (moments : List (Moment ι ε)) : List Node := (opened moments).map (·.1)

/-- The node that a visitor asks something for: its body, with a `.body` event, or a descent. -/
def used? (moment : Moment ι ε) : Option Node :=
  match moment.event with
  | .body node _ | .descend node _ => some node
  | _ => none

/-- **Visitors ask only for nodes that were handed out** before, in the same stretch: a node that is
`used?` by a moment is among those `handed` in front of it. -/
def UsesHanded (moments : List (Moment ι ε)) : Prop :=
  Everywhere (fun front moment _ => ∀ node ∈ moment.used?, node ∈ handed front) moments

/-- Whether a moment begins the visit of a node: a `.visit` event of it. -/
def isVisitOf (node : Node) (moment : Moment ι ε) : Bool :=
  match moment.event with
  | .visit _ other _ _ => other == node
  | _ => false

/-- Whether a moment ends the visit of a node: a `.visited` event of it. -/
def isVisitedOf (node : Node) (moment : Moment ι ε) : Bool :=
  match moment.event with
  | .visited other _ => other == node
  | _ => false

theorem isVisitedOf_of_event {moment : Moment ι ε} {node : Node} {answer : Except Fault Signal}
    (h : moment.event = .visited node answer) : moment.isVisitedOf node = true := by
  rw [isVisitedOf, h]
  exact beq_self_eq_true node

theorem isVisitOf_of_event {moment : Moment ι ε} {visitor : ι} {node : Node} {tag : Tag}
    {soughtFrom : Nat} (h : moment.event = .visit visitor node tag soughtFrom) :
    moment.isVisitOf node = true := by
  rw [isVisitOf, h]
  exact beq_self_eq_true node

@[simp] theorem handed_append (first second : List (Moment ι ε)) :
    handed (first ++ second) = handed first ++ handed second := by
  simp [handed]

/-- The visits of a node that begin are those that hand it out: as often as `node` is in
`handed moments`. -/
theorem countP_isVisitOf (node : Node) (moments : List (Moment ι ε)) :
    moments.countP (isVisitOf node) = (handed moments).count node := by
  induction moments with
  | nil => rfl
  | cons moment moments ih =>
    rw [List.countP_cons, ih]
    obtain ⟨level, reader, event⟩ := moment
    cases event with
    | visit visitor other tag soughtFrom =>
      show _ = (other :: handed moments).count node
      rw [List.count_cons]
      rfl
    | _ => rfl

/-- A node was handed out when a visit of it has begun. -/
theorem mem_handed_iff {node : Node} {moments : List (Moment ι ε)} :
    node ∈ handed moments ↔ ∃ moment ∈ moments, moment.isVisitOf node = true := by
  rw [← List.count_pos_iff, ← countP_isVisitOf, List.countP_pos_iff]

/-- Whether visitors ask only for nodes that are `known`, or handed out in the meantime. It is
`UsesHanded` as a computation. -/
def asksWithin (known : List Node) : List (Moment ι ε) → Bool
  | [] => true
  | moment :: moments =>
      moment.used?.all (· ∈ known) && asksWithin (known ++ handed [moment]) moments

/-- Whether visitors use what they were handed can be computed: `asksWithin [] moments = true`. -/
theorem usesHanded_iff {moments : List (Moment ι ε)} :
    UsesHanded moments ↔ asksWithin [] moments = true := by
  -- what was handed out before is carried along, as the induction goes on behind it
  suffices hknown : ∀ known, Everywhere (fun front moment _ =>
      ∀ node ∈ moment.used?, node ∈ known ++ handed front) moments ↔
        asksWithin known moments = true from hknown []
  induction moments with
  | nil => simp [asksWithin]
  | cons moment moments ih =>
    intro known
    rw [everywhere_cons, asksWithin, Bool.and_eq_true, ← ih]
    refine and_congr ?_ (iff_of_eq (congrArg (Everywhere · moments) ?_))
    · cases moment.used? with
      | none => simp
      | some node => simp [handed]
    · funext front other _
      have hhanded : handed (moment :: front) = handed [moment] ++ handed front :=
        handed_append [moment] front
      rw [hhanded, List.append_assoc]

/-! ## Visits that begin and end -/

/-- **A balanced stretch** ends as many visits of each node as it begins: `isVisitedOf node` counts
what `isVisitOf node` counts. -/
def IsBalanced (moments : List (Moment ι ε)) : Prop :=
  ∀ node, moments.countP (isVisitedOf node) = moments.countP (isVisitOf node)

section IsBalanced

variable {moment : Moment ι ε} {first second moments : List (Moment ι ε)}

/-- Whether a moment neither begins nor ends a visit. -/
def isBetweenVisits (moment : Moment ι ε) : Bool :=
  match moment.event with
  | .visit .. | .visited .. => false
  | _ => true

theorem IsBalanced.append (h₁ : IsBalanced first) (h₂ : IsBalanced second) :
    IsBalanced (first ++ second) := by
  intro node
  rw [List.countP_append, List.countP_append, h₁, h₂]

/-- Such a moment is no visit of any node, and no end of one. -/
theorem not_visit_of_isBetweenVisits (h : moment.isBetweenVisits = true) (node : Node) :
    ¬ moment.isVisitOf node = true ∧ ¬ moment.isVisitedOf node = true := by
  obtain ⟨level, reader, event⟩ := moment
  cases event with
  | visit => cases h
  | visited => cases h
  | _ => exact ⟨Bool.false_ne_true, Bool.false_ne_true⟩

/-- Moments that neither begin nor end a visit are balanced. -/
theorem isBalanced_of_forall (h : ∀ moment ∈ moments, moment.isBetweenVisits = true) :
    IsBalanced moments := by
  intro node
  have hbegins : moments.countP (isVisitOf node) = 0 :=
    List.countP_eq_zero.mpr fun moment hm => (not_visit_of_isBetweenVisits (h moment hm) node).1
  have hends : moments.countP (isVisitedOf node) = 0 :=
    List.countP_eq_zero.mpr fun moment hm => (not_visit_of_isBetweenVisits (h moment hm) node).2
  rw [hbegins, hends]

theorem isBalanced_logs (level : Nat) (reader : Reader) (records : List LogRecord) :
    IsBalanced (logs level reader records : List (Moment ι ε)) := by
  refine isBalanced_of_forall fun moment hm => ?_
  obtain ⟨record, -, rfl⟩ := List.mem_map.mp hm
  rfl

/-- A moment that neither begins nor ends a visit may come first. -/
theorem IsBalanced.cons (h : IsBalanced moments) (hmoment : moment.isBetweenVisits = true) :
    IsBalanced (moment :: moments) := by
  have hsingle : IsBalanced [moment] := isBalanced_of_forall (by simpa using hmoment)
  exact hsingle.append h

/-- Or it may come last. -/
theorem IsBalanced.concat (h : IsBalanced moments) (hmoment : moment.isBetweenVisits = true) :
    IsBalanced (moments ++ [moment]) :=
  h.append (isBalanced_of_forall (by simpa using hmoment))

theorem IsBalanced.of_scoped {level : Nat} {element : Option Node} {reader after : Reader}
    {result : Except Fault Unit}
    (h : Course.Scoped (fun _ moments _ => IsBalanced moments) level element reader moments after
      result) : IsBalanced moments := by
  cases h with
  | refused full => exact isBalanced_of_forall (by simp [isBetweenVisits])
  | entered result room work => exact (work.concat rfl).cons rfl

/-- **All work is balanced**, since a `.visited` stands behind the work of every `.visit`. -/
theorem closed_isBalanced : Course.Closed (fun _ moments _ => IsBalanced moments : Course ι ε) where
  nil _ _ := rfl
  append := IsBalanced.append
  remark _ _ _ _ := rfl
  reset _ _ _ := rfl
  readBody level reader node := (isBalanced_logs _ _ _).concat rfl
  skip level reader node := (isBalanced_logs _ _ _).concat rfl
  skipMarkup level _ _ _ _ _ := rfl
  close level _ _ _ _ _ _ := rfl
  broken level _ _ _ _ _ _ := isBalanced_logs _ _ _
  visit level reader after tag node inner visitor result _ _ _ work := by
    refine (isBalanced_logs _ _ _).append fun other => ?_
    -- the visit counts one and its end counts one, for this node and for no other
    simp [List.countP_cons, List.countP_append, work other, isVisitOf, isVisitedOf]
  descendEmpty _ _ _ _ _ _ := rfl
  descend level reader after parent inner result visitor notClosed work :=
    ((IsBalanced.of_scoped work).concat rfl).cons rfl
  parse level reader after inner result visitor work := by
    refine IsBalanced.cons (IsBalanced.concat ?_ rfl) rfl
    cases work with
    | broken skipped => exact isBalanced_logs _ _ _
    | empty skipped eof => exact isBalanced_logs _ _ _
    | element skipped notEof work => exact (isBalanced_logs _ _ _).append (.of_scoped work)

end IsBalanced

end Moment

/-! ## Runs that only move on -/

/-- **What happens on a fresh reader that never returns to the front**, with visitors that ask only
for nodes they were handed: where every moment stands, what marks are set, and that the reader moves
on. -/
structure Orderly (document : Bytes) (moments : List (Moment ι ε)) : Prop where
  /-- Every moment fits between the others. -/
  fits : Moment.FitBetween [] [] moments
  /-- The mark is told by the events; there is none at the beginning. -/
  mark : Moment.Everywhere (fun front moment _ => moment.reader.lastClosed =
    (front ++ [moment]).foldl Moment.markAfter none) moments
  /-- The events speak the truth. -/
  truthful : ∀ moment ∈ moments, moment.IsTruthful document
  /-- The reader never moves back. -/
  ordered : moments.Pairwise fun earlier later => earlier.reader.position ≤ later.reader.position
  /-- No two nodes have their bodies at one place. -/
  nodup : ((Moment.handed moments).map (·.bodyStart)).Nodup
  /-- Visits that begin also end. -/
  balanced : Moment.IsBalanced moments
  /-- Visitors ask for what they were handed. -/
  usesHanded : Moment.UsesHanded moments

/-- **A run on a fresh reader is orderly**, if it resets nothing and uses what was handed out: the
fields of `Orderly` come from courses that all runs follow. -/
theorem orderly_of_run {cast : Cast ι σ ε} {calls fuel : Nat} {document : Bytes} {options : Options}
    {state : σ} {script : Script ι σ ε α} {ended : Session ι σ ε} {value : α}
    (hrun : script.run (perform cast calls) fuel (.start (.ofDocument document options) state) =
      some (ended, value))
    (hsteady : Moment.anyResets ended.ownMoments = false)
    (hhanded : Moment.UsesHanded ended.ownMoments) : Orderly document ended.ownMoments := by
  -- what happened since the beginning is all that happened
  have hcourse : ∀ {P : Course ι ε}, P.Composed →
      P (.ofDocument document options) ended.ownMoments ended.reader := fun h =>
    (h.follows_run (h.follows_perform cast calls) hrun).since
  have hmoves := (hcourse Advances.closed.composed).movesOn hsteady
  have htells := hcourse TellsMark.closed.composed
  refine ⟨hcourse Course.composed_fitting, htells.mark, htells.truthful, hmoves.ordered, ?_,
    hcourse Moment.closed_isBalanced.composed, hhanded⟩
  rw [Moment.handed, List.map_map]
  exact hmoves.bodyStart_pairwise.imp Nat.ne_of_lt

namespace Orderly

variable {document : Bytes} {own front inner back : List (Moment ι ε)} {node other : Node}
  {visit visited : Moment ι ε}

/-- Nodes whose bodies are at one place are one node, so a mark tells a node. -/
theorem eq_of_bodyStart (h : Orderly document own) (hnode : node ∈ Moment.handed own)
    (hother : other ∈ Moment.handed own) (heq : other.bodyStart = node.bodyStart) : other = node :=
  List.inj_on_of_nodup_map h.nodup hother hnode heq

/-- A node has one visit, as no two nodes that are handed out have their bodies at one place. -/
theorem countP_isVisitOf_le_one (h : Orderly document own) (node : Node) :
    own.countP (Moment.isVisitOf node) ≤ 1 := by
  rw [Moment.countP_isVisitOf]
  exact List.nodup_iff_count_le_one.mp h.nodup.of_map node

section Visit

variable (h : Orderly document (front ++ visit :: (inner ++ visited :: back)))
  (hvisited : visited.isVisitedOf node = true)

include h

/-- Before its visit nobody has the node. -/
theorem not_mem_handed_front (hvisit : visit.isVisitOf node = true) :
    node ∉ Moment.handed front := by
  intro hm
  obtain ⟨earlier, hearlier, hnode⟩ := Moment.mem_handed_iff.mp hm
  have hle := h.countP_isVisitOf_le_one node
  rw [List.countP_append, List.countP_cons_of_pos hvisit] at hle
  have hpos : 0 < front.countP (Moment.isVisitOf node) :=
    List.countP_pos_iff.mpr ⟨earlier, hearlier, hnode⟩
  omega

include hvisited

/-- The visit ends once. -/
theorem isVisitedOf_eq_false {moment : Moment ι ε}
    (hm : moment ∈ front ++ visit :: inner ∨ moment ∈ back) :
    moment.isVisitedOf node = false := by
  -- a visit that ends twice would also have begun twice
  have hle := h.countP_isVisitOf_le_one node
  rw [← h.balanced node] at hle
  rw [← List.cons_append, ← List.append_assoc, List.countP_append,
    List.countP_cons_of_pos hvisited] at hle
  rw [Bool.eq_false_iff]
  intro hmoment
  rcases hm with hm | hm
  · have hpos := List.countP_pos_iff.mpr ⟨moment, hm, hmoment⟩
    omega
  · have hpos := List.countP_pos_iff.mpr ⟨moment, hm, hmoment⟩
    omega

/-- The end of the visit is where it is. -/
theorem eq_visited {moment : Moment ι ε}
    (hm : moment ∈ front ++ visit :: (inner ++ visited :: back))
    (hmoment : moment.isVisitedOf node = true) : moment = visited := by
  rw [← List.cons_append, ← List.append_assoc] at hm
  rcases List.mem_append.mp hm with hm | hm
  · exact absurd (h.isVisitedOf_eq_false hvisited (.inl hm)) (by simp [hmoment])
  · rcases List.mem_cons.mp hm with rfl | hm
    · rfl
    · exact absurd (h.isVisitedOf_eq_false hvisited (.inr hm)) (by simp [hmoment])

end Visit

/-- **What is asked about a node comes behind its visit**: behind `visit` and before `visited`,
everything that was handed the node before is in `inner`. -/
theorem mem_inner_of_handed (h : Orderly document (front ++ visit :: (inner ++ visited :: back)))
    (hvisit : visit.isVisitOf node = true) {earlier later : List (Moment ι ε)} {moment : Moment ι ε}
    (heq : front ++ visit :: inner = earlier ++ moment :: later)
    (hhanded : node ∈ Moment.handed earlier) : moment ∈ inner := by
  have hfront := h.not_mem_handed_front hvisit
  -- the visit is in front of the moment
  rcases List.append_eq_append_iff.mp heq with ⟨rest, hearlier, hrest⟩ | ⟨rest, hfront', hrest⟩
  · cases rest with
    | nil =>
      rw [List.append_nil] at hearlier
      exact absurd (hearlier ▸ hhanded) hfront
    | cons first rest =>
      obtain ⟨-, rfl⟩ := List.cons.inj hrest
      simp
  · rw [hfront', Moment.handed_append] at hfront
    exact absurd (List.mem_append_left _ hhanded) hfront

/-- A node whose descent has begun was handed out before. -/
theorem mem_handed_of_descend {moment : Moment ι ε}
    (h : Orderly document (front ++ moment :: back))
    (hdescent : ∃ other ∈ front, ∃ visitor, other.event = .descend node visitor) :
    node ∈ Moment.handed front := by
  obtain ⟨other, hm, visitor, hother⟩ := hdescent
  obtain ⟨before, after, rfl⟩ := List.append_of_mem hm
  have hused := h.usesHanded before other (after ++ moment :: back) (by simp) node
    (by simp [Moment.used?, hother])
  rw [Moment.handed_append]
  exact List.mem_append_left _ hused

/-- **What marks a node**: somebody who was handed it before, by a body that was read, by a closing
tag or because the node closes itself; or its visit that has ended, behind which what is left of it
is skipped. -/
theorem marked_cases {moment : Moment ι ε} (h : Orderly document (front ++ moment :: back))
    (hmarked : moment.marked? = some node) :
    (node ∈ Moment.handed front ∧ ((∃ body, moment.event = .body node (.ok body)) ∨
      (∃ tag, moment.event = .close node tag) ∨ node.selfClosing = true)) ∨
    ∃ other ∈ front, other.isVisitedOf node = true := by
  have hgrounded := (h.fits front moment back rfl).grounded
  unfold Moment.marked? at hmarked
  unfold Moment.IsGrounded at hgrounded
  split at hmarked
  · -- by the events that mark: a body, a skip, a closing tag, and the end of a descent
    rename_i body hevent
    cases hmarked
    have hused := h.usesHanded front moment back rfl node (by simp [Moment.used?, hevent])
    exact .inl ⟨hused, .inl ⟨body, hevent⟩⟩
  · rename_i hevent
    cases hmarked
    rw [hevent] at hgrounded
    obtain ⟨other, hm, hother, -⟩ := hgrounded
    exact .inr ⟨other, hm, Moment.isVisitedOf_of_event hother⟩
  · rename_i tag hevent
    cases hmarked
    rw [hevent] at hgrounded
    exact .inl ⟨h.mem_handed_of_descend hgrounded, .inr (.inl ⟨tag, hevent⟩)⟩
  · rename_i hevent
    split at hmarked
    · rename_i hself
      cases hmarked
      rw [hevent] at hgrounded
      exact .inl ⟨h.mem_handed_of_descend hgrounded, .inr (.inr hself)⟩
    · cases hmarked
  · cases hmarked

/-- Only nodes that are handed out are marked. -/
theorem mem_handed_of_marked {moment : Moment ι ε}
    (h : Orderly document (front ++ moment :: back)) (hmarked : moment.marked? = some node) :
    node ∈ Moment.handed (front ++ moment :: back) := by
  rcases h.marked_cases hmarked with ⟨hhanded, -⟩ | ⟨other, hm, hother⟩
  · rw [Moment.handed_append]
    exact List.mem_append_left _ hhanded
  · -- a visit that has ended has begun
    have hended : 0 < (front ++ moment :: back).countP (Moment.isVisitedOf node) :=
      List.countP_pos_iff.mpr ⟨other, List.mem_append_left _ hm, hother⟩
    rw [h.balanced node, Moment.countP_isVisitOf] at hended
    exact List.count_pos_iff.mp hended

/-- **A mark that a visit leaves on its node was set in the visit**, by a body that was read or by a
closing tag that ended an enumeration: a `.body` or a `.close` event in `inner`. -/
theorem exists_mem_inner_of_mark
    (h : Orderly document (front ++ visit :: (inner ++ visited :: back)))
    (hvisit : visit.isVisitOf node = true) {answer : Except Fault Signal}
    (hvisited : visited.event = .visited node answer) (hopen : node.selfClosing = false)
    (hmark : visited.reader.lastClosed = some node.bodyStart) :
    ∃ moment ∈ inner,
      (∃ body, moment.event = .body node (.ok body)) ∨ ∃ tag, moment.event = .close node tag := by
  have hnode : node ∈ Moment.handed (front ++ visit :: (inner ++ visited :: back)) :=
    Moment.mem_handed_iff.mpr ⟨visit, by simp, hvisit⟩
  -- the end of the visit leaves the mark, so an event in front of it has set it
  have htold : visited.reader.lastClosed =
      ((front ++ visit :: inner) ++ [visited]).foldl Moment.markAfter none :=
    h.mark (front ++ visit :: inner) visited back (by simp)
  have hplain : visited.isPlain = true := by simp [Moment.isPlain, hvisited]
  rw [hmark, List.foldl_append, List.foldl_cons, List.foldl_nil,
    Moment.markAfter_of_isPlain hplain] at htold
  obtain ⟨earlier, moment, later, other, heq, hmarked, hplace⟩ :=
    (Moment.exists_marked_of_foldl htold.symm).resolve_left (by simp)
  have hown : front ++ visit :: (inner ++ visited :: back) =
      earlier ++ moment :: (later ++ visited :: back) := by
    rw [← List.cons_append, ← List.append_assoc, heq]
    simp
  have hearlier := hown ▸ h
  -- the node that it marks is no other one
  obtain rfl : other = node :=
    h.eq_of_bodyStart hnode (hown ▸ hearlier.mem_handed_of_marked hmarked) hplace
  rcases hearlier.marked_cases hmarked with ⟨hhanded, hevent⟩ | ⟨skipped, hm, hskipped⟩
  · refine ⟨moment, h.mem_inner_of_handed hvisit heq hhanded, ?_⟩
    rcases hevent with hbody | hclose | hself
    · exact .inl hbody
    · exact .inr hclose
    · simp [hopen] at hself
  · -- the visit has not ended before it ends
    have hnone : skipped.isVisitedOf other = false :=
      h.isVisitedOf_eq_false (Moment.isVisitedOf_of_event hvisited)
        (.inl (heq ▸ List.mem_append_left _ hm))
    simp [hskipped] at hnone

/-- **Nothing is skipped of a node that its visit leaves closed**: no moment has the event
`.skip node result`, before the visit or behind it. -/
theorem not_skip_of_isClosed
    (h : Orderly document (front ++ visit :: (inner ++ visited :: back)))
    {answer : Except Fault Signal} (hvisited : visited.event = .visited node answer)
    (hclosed : visited.reader.isClosed node = true) :
    ∀ moment ∈ front ++ visit :: (inner ++ visited :: back),
      ∀ result, moment.event ≠ .skip node result := by
  intro moment hm result hevent
  obtain ⟨before, after, heq⟩ := List.append_of_mem hm
  have hgrounded := (h.fits before moment after heq).grounded
  rw [Moment.IsGrounded, hevent] at hgrounded
  obtain ⟨other, hother, hended, hunclosed⟩ := hgrounded
  -- a search needs the end of a visit, and there is only one
  have hsame : other = visited :=
    h.eq_visited (Moment.isVisitedOf_of_event hvisited)
      (heq ▸ List.mem_append_left _ hother) (Moment.isVisitedOf_of_event hended)
  rw [hsame, hclosed] at hunclosed
  cases hunclosed

end Orderly

/-- **A visit that ends by consuming the closing tag of its node**: but for remarks, the last that
happens is that the node's body is read, or that a descent to its children ends at a closing tag,
with `.close`, the record of the scope, and `.descended`. -/
inductive Moment.EndsConsuming (node : Node) : List (Moment ι ε) → Prop
  /-- The body is read. -/
  | read {read : Moment ι ε} {body : Bytes} {remarks : List (Moment ι ε)}
      (earlier : List (Moment ι ε)) (read_eq : read.event = .body node (.ok body))
      (remarks_eq : ∀ moment ∈ remarks, ∃ note, moment.event = .remark note) :
      EndsConsuming node (earlier ++ read :: remarks)
  /-- A descent ends. -/
  | closed {close leave descended : Moment ι ε} {tag : Tag} {record : LogRecord}
      {remarks : List (Moment ι ε)} (earlier : List (Moment ι ε))
      (close_eq : close.event = .close node tag) (leave_eq : leave.event = .log record)
      (descended_eq : descended.event = .descended node (.ok ()))
      (remarks_eq : ∀ moment ∈ remarks, ∃ note, moment.event = .remark note) :
      EndsConsuming node (earlier ++ close :: leave :: descended :: remarks)

/-- **What consumes the closing tag last leaves the mark** `some node.bodyStart`, whatever the
`mark` was before. -/
theorem Moment.EndsConsuming.foldl_markAfter {node : Node} {moments : List (Moment ι ε)}
    (h : EndsConsuming node moments) (hopen : node.selfClosing = false) (mark : Option Nat) :
    moments.foldl markAfter mark = some node.bodyStart := by
  -- remarks may follow, and leave the mark alone
  have hremarks : ∀ {remarks : List (Moment ι ε)},
      (∀ moment ∈ remarks, ∃ note, moment.event = .remark note) →
        ∀ moment ∈ remarks, moment.isPlain = true := by
    intro remarks hall moment hm
    obtain ⟨note, hnote⟩ := hall moment hm
    simp [isPlain, hnote]
  cases h with
  | @read read body remarks earlier read_eq remarks_eq =>
    have hmarked : read.marked? = some node := by rw [marked?, read_eq]
    rw [List.foldl_append, List.foldl_cons, markAfter_of_marked hmarked,
      foldl_markAfter_of_isPlain (hremarks remarks_eq)]
  | @closed close leave descended tag record remarks earlier close_eq leave_eq descended_eq
      remarks_eq =>
    have hmarked : close.marked? = some node := by rw [marked?, close_eq]
    have hleave : leave.isPlain = true := by simp [isPlain, leave_eq]
    have hdescended : descended.isPlain = true := by simp [isPlain, descended_eq, hopen]
    rw [List.foldl_append, List.foldl_cons, markAfter_of_marked hmarked,
      List.foldl_cons, markAfter_of_isPlain hleave, List.foldl_cons,
      markAfter_of_isPlain hdescended, foldl_markAfter_of_isPlain (hremarks remarks_eq)]

/-- **The mark of a closed node is never stale.** On a fresh reader that never returns to the front
of its document, let visitors ask only for nodes that the reader handed out (`anyResets … = false`,
`UsesHanded`). Behind a visit whose answer is to go on, the reader `GoesOn`: it searches for the
node's closing tag exactly if the node is not `isClosed`, and looks for the next tag from where the
visitor left it otherwise. If the node is closed, then no `.skip node` ever happens, and in that
very visit its closing tag was consumed, by a body that was read or by a descent that ended there
(`Consumes`), and the reader is past it. And if the visit `EndsConsuming` its closing tag, the node
is closed. -/
theorem mark_of_run (cast : Cast ι σ ε) (calls fuel : Nat) (document : Bytes) (options : Options)
    (state : σ) (script : Script ι σ ε α) {ended : Session ι σ ε} {value : α}
    (hrun : script.run (perform cast calls) fuel (.start (.ofDocument document options) state) =
      some (ended, value))
    (hsteady : Moment.anyResets ended.ownMoments = false)
    (hhanded : Moment.UsesHanded ended.ownMoments)
    {front inner back : List (Moment ι ε)} {visit visited : Moment ι ε} {visitor : ι} {node : Node}
    {tag : Tag} {soughtFrom : Nat}
    (hsplit : ended.ownMoments = front ++ visit :: (inner ++ visited :: back))
    (hvisit : visit.event = .visit visitor node tag soughtFrom)
    (hvisited : visited.event = .visited node (.ok .proceed)) (hopen : node.selfClosing = false) :
    Moment.GoesOn node visited.reader back ∧
      (visited.reader.isClosed node = true →
        (∀ moment ∈ ended.ownMoments, ∀ result, moment.event ≠ .skip node result) ∧
          ∃ moment ∈ inner, ∃ stop, moment.Consumes document node stop ∧
            stop ≤ visited.reader.position) ∧
      (Moment.EndsConsuming node inner → visited.reader.isClosed node = true) := by
  have horderly := orderly_of_run hrun hsteady hhanded
  rw [hsplit] at horderly ⊢
  have hshown := Moment.isVisitOf_of_event hvisit
  have hlater : front ++ visit :: (inner ++ visited :: back) =
      (front ++ visit :: inner) ++ visited :: back := by simp
  refine ⟨?_, ?_, ?_⟩
  · have hgoesOn := (horderly.fits _ visited back hlater).goesOn node hvisited
    rwa [List.append_nil] at hgoesOn
  · intro hclosed
    refine ⟨horderly.not_skip_of_isClosed hvisited hclosed, ?_⟩
    have hmark : visited.reader.lastClosed = some node.bodyStart := by
      simpa [Reader.isClosed, hopen] using hclosed
    obtain ⟨moment, hm, hevent⟩ :=
      horderly.exists_mem_inner_of_mark hshown hvisited hopen hmark
    obtain ⟨stop, hconsumes, hle⟩ := horderly.truthful moment (by simp [hm]) node hopen hevent
    -- nothing moves the reader back between that moment and the end of the visit
    have hordered := (List.pairwise_append.mp (hlater ▸ horderly.ordered)).2.2 moment
      (by simp [hm]) visited List.mem_cons_self
    exact ⟨moment, hm, stop, hconsumes, Nat.le_trans hle hordered⟩
  · intro hends
    have hplain : visited.isPlain = true := by simp [Moment.isPlain, hvisited]
    have htold : visited.reader.lastClosed =
        ((front ++ visit :: inner) ++ [visited]).foldl Moment.markAfter none :=
      horderly.mark _ visited back hlater
    rw [List.foldl_append, List.foldl_cons, List.foldl_nil, Moment.markAfter_of_isPlain hplain,
      List.foldl_append, List.foldl_cons, hends.foldl_markAfter hopen] at htold
    simp [Reader.isClosed, htold]

/-- The visitor that descends into the elements `a`, and reads the bodies of the others. -/
def readBelowA : Cast Unit Unit Empty := fun _ node =>
  if node.name = [0x61] then .descend node () fun result => .done (result.map fun _ => .proceed)
  else .readBody node fun result => .done (result.map fun _ => .proceed)

/-- The session at the front of `<a><b>x</b></a>`. -/
def sessionAtA : Session Unit Unit Empty :=
  .start (.ofDocument [0x3C, 0x61, 0x3E, 0x3C, 0x62, 0x3E, 0x78, 0x3C, 0x2F, 0x62, 0x3E, 0x3C, 0x2F,
    0x61, 0x3E] .lenient) ()

/-- The script that parses the document. -/
def parseA : Script Unit Unit Empty (Except Fault Unit) := .parse () .done

/-- The element `b`. -/
def nodeB : Node := ⟨⟨[0x62], .empty, false⟩, 6⟩

/-- The visit of `b` in `<a><b>x</b></a>` reads its body, so that `b` is marked, and nothing is
skipped of it. -/
theorem mark_of_run_readBelowA :
    ∃ ended front visit inner visited back,
      parseA.run (perform readBelowA 4) 4 sessionAtA = some (ended, .ok ()) ∧
      ended.ownMoments = front ++ visit :: (inner ++ visited :: back) ∧
      visit.event = .visit () nodeB ⟨3, 5⟩ 3 ∧ visited.event = .visited nodeB (.ok .proceed) ∧
      visited.reader.isClosed nodeB = true ∧
      (∀ moment ∈ ended.ownMoments, ∀ result, moment.event ≠ .skip nodeB result) ∧
      ∃ moment ∈ inner, ∃ stop, moment.Consumes sessionAtA.reader.document nodeB stop ∧
        stop ≤ visited.reader.position := by
  have hrun : ∃ ended, parseA.run (perform readBelowA 4) 4 sessionAtA = some (ended, .ok ()) ∧
      Moment.anyResets ended.ownMoments = false ∧ Moment.asksWithin [] ended.ownMoments = true ∧
      ∃ front visit body visited back,
        ended.ownMoments = front ++ visit :: ([body] ++ visited :: back) ∧
        visit.event = .visit () nodeB ⟨3, 5⟩ 3 ∧ body.event = .body nodeB (.ok [0x78]) ∧
        visited.event = .visited nodeB (.ok .proceed) := by
    refine ⟨_, by with_unfolding_all rfl, by with_unfolding_all rfl, by with_unfolding_all rfl, ?_⟩
    refine ⟨[_, _, _, _, _], _, _, _, _, by with_unfolding_all rfl, ?_, ?_, ?_⟩
    · with_unfolding_all rfl
    · with_unfolding_all rfl
    · with_unfolding_all rfl
  obtain ⟨ended, hdone, hsteady, hasks, front, visit, body, visited, back, hsplit, hvisit, hbody,
    hvisited⟩ := hrun
  obtain ⟨-, hmarked, hends⟩ := mark_of_run readBelowA 4 4 sessionAtA.reader.document .lenient ()
    parseA hdone hsteady (Moment.usesHanded_iff.mpr hasks) hsplit hvisit hvisited rfl
  have hlast : Moment.EndsConsuming nodeB [body] := .read [] hbody nofun
  have hclosed := hends hlast
  exact ⟨ended, front, visit, [body], visited, back, hdone, hsplit, hvisit, hvisited, hclosed,
    hmarked hclosed⟩

end TagWalk
