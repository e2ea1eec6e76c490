import TagWalk.Proofs.Course

/-! # What stands around a moment

A run is put together by the reader, so an event does not come from nowhere and is not followed by
just anything: a closing tag is taken for that of a node while its children are enumerated, a node is
skipped behind its visit, and behind a visit that is to go on the reader either skips the node or
looks for the next tag.

* **`Moment.Everywhere`** — what holds at every moment of a stretch, seen from those in front of it
  and those behind it.
* **`Moment.GoesOn`** — what comes next when a visitor answers to go on.
* **`Moment.Fits`** — a moment that fits between what stands around it.
* **`Course.composed_fitting`** — every moment of every run fits. -/

namespace TagWalk

variable {ι σ ε α : Type}

/-- The cursor past the next tag, or where it is when `nextTag` finds none. -/
def Cursor.passNext (cursor : Cursor) : Cursor :=
  match cursor.nextTag with
  | .ok tag => cursor.passTag tag
  | .error _ => cursor

namespace Cursor

variable {cursor : Cursor}

/-- A next tag is passed. -/
theorem passNext_of_ok {tag : Tag} (h : cursor.nextTag = .ok tag) :
    cursor.passNext = cursor.passTag tag := by
  rw [passNext, h]

/-- Without a next tag, nothing is passed. -/
theorem passNext_of_error {fault : Fault} (h : cursor.nextTag = .error fault) :
    cursor.passNext = cursor := by
  rw [passNext, h]

end Cursor

namespace Moment

/-! ## Every moment of a stretch -/

/-- **What holds at every moment of a stretch**, `K front moment back`, seen from the moments in
front of it and from those behind it. -/
def Everywhere (K : List (Moment ι ε) → Moment ι ε → List (Moment ι ε) → Prop)
    (moments : List (Moment ι ε)) : Prop :=
  ∀ front moment back, moments = front ++ moment :: back → K front moment back

section Everywhere

variable {K L : List (Moment ι ε) → Moment ι ε → List (Moment ι ε) → Prop}
  {moment : Moment ι ε} {moments first second : List (Moment ι ε)}

@[simp] theorem everywhere_nil : Everywhere K [] := by
  intro front moment back h
  simp at h

@[simp] theorem everywhere_cons :
    Everywhere K (moment :: moments) ↔
      K [] moment moments ∧ Everywhere (fun front => K (moment :: front)) moments := by
  constructor
  · intro h
    exact ⟨h [] moment moments rfl, fun front other back heq => h (moment :: front) other back
      (congrArg (moment :: ·) heq)⟩
  · rintro ⟨hfirst, hrest⟩ front other back heq
    cases front with
    | nil =>
      cases heq
      exact hfirst
    | cons _ front =>
      cases heq
      exact hrest front other back rfl

/-- **One stretch after another**: each stands around the other, `second` behind every moment of
`first`, and `first` in front of every moment of `second`. -/
theorem everywhere_append :
    Everywhere K (first ++ second) ↔
      Everywhere (fun front moment back => K front moment (back ++ second)) first ∧
        Everywhere (fun front => K (first ++ front)) second := by
  induction first generalizing K with
  | nil => simp
  | cons moment first ih => simp [ih, and_assoc]

theorem Everywhere.imp (h : Everywhere K moments)
    (himp : ∀ front moment back, K front moment back → L front moment back) :
    Everywhere L moments :=
  fun front moment back heq => himp front moment back (h front moment back heq)

/-- What needs nothing around it holds everywhere when it holds of each moment. -/
theorem everywhere_of_forall (h : ∀ moment ∈ moments, ∀ front back, K front moment back) :
    Everywhere K moments := by
  rintro front moment back rfl
  exact h moment (by simp) front back

end Everywhere

/-! ## Moments that fit -/

/-- Whether a moment skips what a visitor left of a node. -/
def isSkip (moment : Moment ι ε) : Bool :=
  match moment.event with
  | .skip .. => true
  | _ => false

/-- **What comes next** when the visitor of a node answers to go on, with the reader as it left it:
the end of the parse, a search for the closing tag of a node that is not closed, or the next tag
behind one that is. -/
inductive GoesOn (node : Node) (reader : Reader) : List (Moment ι ε) → Prop
  /-- The node is the root element: the scope of the document is left, and the parse ends. -/
  | ended (level : Nat) (result : Except Fault Unit) (back : List (Moment ι ε)) :
      GoesOn node reader
        (⟨level, reader.leaveScope.1, .log reader.leaveScope.2⟩ ::
          ⟨level, reader.leaveScope.1, .parsed result⟩ :: back)
  /-- The node is not closed: its closing tag is searched for. -/
  | searched (level : Nat) (back : List (Moment ι ε)) (unclosed : reader.isClosed node = false) :
      GoesOn node reader
        (reported level (reader.readBody node).1 (reader.readBody node).2 (.skip node) ++ back)
  /-- The node is closed: the next tag is looked for, from exactly where the reader is. -/
  | sought (next : Moment ι ε) (back : List (Moment ι ε)) (closed : reader.isClosed node = true)
      (cursor_eq : next.reader.cursor = reader.cursor.passNext) (not_skip : next.isSkip = false) :
      GoesOn node reader (next :: back)

/-- More may happen later. -/
theorem GoesOn.append {node : Node} {reader : Reader} {back : List (Moment ι ε)}
    (h : GoesOn node reader back) (more : List (Moment ι ε)) :
    GoesOn node reader (back ++ more) := by
  cases h with
  | ended level result back => exact .ended level result (back ++ more)
  | searched level back unclosed =>
    rw [List.append_assoc]
    exact .searched level (back ++ more) unclosed
  | sought next back closed cursor_eq not_skip =>
    exact .sought next (back ++ more) closed cursor_eq not_skip

/-- **What an event needs in front of it**: `.descended` and `.close` need the descent's beginning,
and `.skip` needs a visit that was to go on and left the node unclosed. -/
def IsGrounded (moment : Moment ι ε) (front : List (Moment ι ε)) : Prop :=
  match moment.event with
  | .close parent _ | .descended parent _ =>
      ∃ other ∈ front, ∃ visitor, other.event = .descend parent visitor
  | .skip node _ =>
      ∃ other ∈ front, other.event = .visited node (.ok .proceed) ∧
        other.reader.isClosed node = false
  | _ => True

/-- What an event needs may stand further in front, in any list that has all of `front`. -/
theorem IsGrounded.mono {moment : Moment ι ε} {front more : List (Moment ι ε)}
    (h : moment.IsGrounded front) (hsub : front ⊆ more) : moment.IsGrounded more := by
  unfold IsGrounded at h ⊢
  split at h
  · obtain ⟨other, hm, hother⟩ := h
    exact ⟨other, hsub hm, hother⟩
  · obtain ⟨other, hm, hother⟩ := h
    exact ⟨other, hsub hm, hother⟩
  · obtain ⟨other, hm, hother⟩ := h
    exact ⟨other, hsub hm, hother⟩
  · trivial

/-- **A moment that fits**: what it needs is in front of it, and behind a visit that is to go on
comes what has to come next, as `GoesOn` says. -/
structure Fits (front : List (Moment ι ε)) (moment : Moment ι ε) (back : List (Moment ι ε)) :
    Prop where
  /-- What it needs is in front of it. -/
  grounded : moment.IsGrounded front
  /-- Behind a visit, the reader goes on. -/
  goesOn (node : Node) (h : moment.event = .visited node (.ok .proceed)) :
    GoesOn node moment.reader back

namespace Fits

variable {front more back : List (Moment ι ε)} {moment : Moment ι ε}

/-- More may stand in front, and more may happen later. -/
theorem mono (h : Fits front moment back) (hsub : front ⊆ more) (later : List (Moment ι ε)) :
    Fits more moment (back ++ later) :=
  ⟨h.grounded.mono hsub, fun node hevent => (h.goesOn node hevent).append later⟩

/-- Behind anything but a visit that is to go on, whatever comes next fits, once the moment
`IsGrounded`. -/
theorem of_isGrounded (h : moment.IsGrounded front)
    (hevent : ∀ node, moment.event ≠ .visited node (.ok .proceed)) : Fits front moment back :=
  ⟨h, fun node heq => absurd heq (hevent node)⟩

end Fits

/-- Whether an event fits anywhere, since it needs nothing and nothing has to come next. -/
def fitsAnywhere (moment : Moment ι ε) : Bool :=
  match moment.event with
  | .close .. | .descended .. | .skip .. | .visited _ (.ok .proceed) => false
  | _ => true

/-- An event that fits anywhere does. -/
theorem Fits.of_fitsAnywhere {front back : List (Moment ι ε)} {moment : Moment ι ε}
    (h : moment.fitsAnywhere = true) : Fits front moment back := by
  obtain ⟨level, reader, event⟩ := moment
  cases event with
  | close => cases h
  | descended => cases h
  | skip => cases h
  | visited node answer =>
    refine ⟨trivial, fun other hevent => ?_⟩
    cases hevent
    cases h
  | _ => exact ⟨trivial, fun _ hevent => by cases hevent⟩

/-- **A stretch fits between others** when each of its moments does, with `front` before the moments
in front of it and `back` behind those that follow. -/
def FitBetween (front back moments : List (Moment ι ε)) : Prop :=
  Everywhere (fun before moment after => Fits (front ++ before) moment (after ++ back)) moments

section FitBetween

variable {front back first second moments : List (Moment ι ε)} {moment : Moment ι ε}

@[simp] theorem fitBetween_nil : FitBetween front back [] := everywhere_nil

@[simp] theorem fitBetween_cons :
    FitBetween front back (moment :: moments) ↔
      Fits front moment (moments ++ back) ∧ FitBetween (front ++ [moment]) back moments := by
  simp [FitBetween]

theorem fitBetween_append :
    FitBetween front back (first ++ second) ↔
      FitBetween front (second ++ back) first ∧ FitBetween (front ++ first) back second := by
  simp [FitBetween, everywhere_append]

/-- A stretch also fits between more. -/
theorem FitBetween.mono {more : List (Moment ι ε)} (h : FitBetween front back moments)
    (hsub : front ⊆ more) (later : List (Moment ι ε)) :
    FitBetween more (back ++ later) moments := by
  refine h.imp fun before moment after hfits => ?_
  rw [← List.append_assoc]
  refine hfits.mono ?_ later
  exact List.append_subset.mpr
    ⟨List.Subset.trans hsub (List.subset_append_left _ _), List.subset_append_right _ _⟩

/-- Moments that fit anywhere fit between any others. -/
theorem fitBetween_of_forall (h : ∀ moment ∈ moments, moment.fitsAnywhere = true) :
    FitBetween front back moments :=
  everywhere_of_forall fun moment hm _ _ => .of_fitsAnywhere (h moment hm)

/-- Logged moments fit anywhere. -/
theorem fitBetween_logs {level : Nat} {reader : Reader} {records : List LogRecord} :
    FitBetween front back (logs level reader records : List (Moment ι ε)) := by
  refine fitBetween_of_forall fun moment hm => ?_
  obtain ⟨record, -, rfl⟩ := List.mem_map.mp hm
  rfl

end FitBetween

/-- A stretch **begins** at a cursor when its first moment shows that cursor and skips nothing. So
`cursor.passNext` is where the reader looked for the next tag. -/
def BeginsAt (cursor : Cursor) (moments : List (Moment ι ε)) : Prop :=
  ∃ next back, moments = next :: back ∧ next.reader.cursor = cursor ∧ next.isSkip = false

/-- Logged moments begin where they are logged, and so does what comes behind them. -/
theorem beginsAt_logs {level : Nat} {reader : Reader} {records : List LogRecord}
    {rest : List (Moment ι ε)} (h : BeginsAt reader.cursor rest) :
    BeginsAt reader.cursor (logs level reader records ++ rest) := by
  cases records with
  | nil => exact h
  | cons record records => exact ⟨_, _, rfl, rfl, rfl⟩

end Moment

/-! ## Every moment of a run -/

namespace Course

open Moment

/-- All moments fit, with nothing around them: `FitBetween [] []`. -/
def Fitting : Course ι ε := fun _ moments _ => FitBetween [] [] moments

section Fitting

variable {level : Nat} {reader after : Reader} {node parent : Node}
  {answer : Except Fault Signal} {front back moments : List (Moment ι ε)}

/-- The end of a visit is one of its moments. -/
theorem Visiting.exists_visited {P : Course ι ε}
    (h : Visiting P level reader node answer moments after) :
    ⟨level, after, .visited node answer⟩ ∈ moments := by
  cases h with
  | visited => simp

/-- A visit begins at the next tag, at `reader.cursor.passNext`. -/
theorem Visiting.beginsAt {P : Course ι ε} (h : Visiting P level reader node answer moments after)
    (rest : List (Moment ι ε)) : BeginsAt reader.cursor.passNext (moments ++ rest) := by
  cases h with
  | visited visitor next kind decoded work =>
    rw [Cursor.passNext_of_ok next, List.append_assoc]
    exact beginsAt_logs ⟨_, _, rfl, rfl, rfl⟩

/-- **A visit fits** where what has to come next comes behind it: `GoesOn node after back` if the
answer is `.ok .proceed`. -/
theorem Visiting.fitBetween (h : Visiting Fitting level reader node answer moments after)
    (hback : answer = .ok .proceed → GoesOn node after back) : FitBetween front back moments := by
  cases h with
  | @visited tag inner after visitor next kind decoded work =>
    rw [fitBetween_append, fitBetween_cons, fitBetween_append]
    refine ⟨fitBetween_logs, .of_fitsAnywhere rfl, ?_, ?_⟩
    · exact FitBetween.mono work (List.nil_subset _) _
    · rw [fitBetween_cons]
      refine ⟨⟨trivial, ?_⟩, fitBetween_nil⟩
      intro other hevent
      cases hevent
      exact hback rfl

/-- A search for what is left of a child fits behind its visit, which left the child unclosed. -/
theorem fitBetween_reported_skip {visited : Reader} {P : Course ι ε}
    (hvisit : Visiting P level reader node (.ok .proceed) moments visited)
    (hunclosed : visited.isClosed node = false) :
    FitBetween (front ++ moments) back
      (reported level (visited.readBody node).1 (visited.readBody node).2 (.skip node)) := by
  rw [reported, fitBetween_append]
  refine ⟨fitBetween_logs, ?_⟩
  rw [fitBetween_cons]
  refine ⟨.of_isGrounded ?_ (by simp), fitBetween_nil⟩
  refine ⟨⟨level, visited, .visited node (.ok .proceed)⟩, ?_, rfl, hunclosed⟩
  exact List.mem_append_left _ (List.mem_append_right _ hvisit.exists_visited)

/-- **An enumeration fits** between the beginning of its descent and the record that its scope is
left, and begins at the next tag. By induction on the tags, each child in front of what its `GoesOn`
asks for. -/
theorem Enumerating.fitBetween (h : Enumerating Fitting level parent reader moments after)
    (hdescent : ∃ other ∈ front, ∃ visitor, other.event = .descend parent visitor)
    {leave : Moment ι ε} (hcursor : leave.reader.cursor = after.cursor)
    (hskip : leave.isSkip = false) :
    FitBetween front (leave :: back) moments ∧
      BeginsAt reader.cursor.passNext (moments ++ leave :: back) := by
  -- the descent is in front of whatever comes later in the enumeration
  have hlater : ∀ {front more : List (Moment ι ε)},
      (∃ other ∈ front, ∃ visitor, other.event = .descend parent visitor) →
        ∃ other ∈ front ++ more, ∃ visitor, other.event = .descend parent visitor :=
    fun ⟨other, hm, hother⟩ => ⟨other, List.mem_append_left _ hm, hother⟩
  induction h generalizing front with
  | missing next =>
    refine ⟨fitBetween_nil, leave, back, rfl, ?_, hskip⟩
    rw [hcursor, Cursor.passNext_of_error next]
  | closed next kind =>
    rw [fitBetween_cons]
    refine ⟨⟨.of_isGrounded hdescent (by simp), fitBetween_nil⟩, _, _, rfl, ?_, rfl⟩
    rw [Cursor.passNext_of_ok next]
    rfl
  | markup next kind more ih =>
    rw [fitBetween_cons]
    refine ⟨⟨.of_fitsAnywhere rfl, (ih (hlater hdescent) hcursor).1⟩, _, _, rfl, ?_, rfl⟩
    rw [Cursor.passNext_of_ok next]
    rfl
  | broken next kind decoded =>
    refine ⟨fitBetween_logs, ?_⟩
    rw [Cursor.passNext_of_ok next]
    exact beginsAt_logs ⟨leave, back, rfl, hcursor, hskip⟩
  | ended visit ends =>
    exact ⟨visit.fitBetween fun hproceed => absurd hproceed ends, visit.beginsAt _⟩
  | unread visit unclosed read =>
    rw [fitBetween_append, List.append_assoc]
    refine ⟨⟨visit.fitBetween fun _ => ?_, fitBetween_reported_skip visit unclosed⟩,
      visit.beginsAt _⟩
    exact .searched level _ unclosed
  | skipped visit unclosed read more ih =>
    rw [fitBetween_append, fitBetween_append, List.append_assoc]
    refine ⟨⟨visit.fitBetween fun _ => ?_, fitBetween_reported_skip visit unclosed, ?_⟩,
      ?_⟩
    · exact .searched level _ unclosed
    · exact (ih (hlater (hlater hdescent)) hcursor).1
    · rw [List.append_assoc]
      exact visit.beginsAt _
  | passed visit closed more ih =>
    rw [fitBetween_append, List.append_assoc]
    obtain ⟨hfits, next, rest, heq, hnext, hskips⟩ := ih (hlater hdescent) hcursor
    refine ⟨⟨visit.fitBetween fun _ => ?_, hfits⟩, visit.beginsAt _⟩
    rw [heq]
    exact .sought next rest closed hnext hskips

/-- **The root element fits** in front of the end of its parse, which is the first case of
`GoesOn`. -/
theorem RootVisiting.fitBetween (h : RootVisiting Fitting level reader moments after)
    (result : Except Fault Unit) :
    FitBetween front (⟨level, after.leaveScope.1, .log after.leaveScope.2⟩ ::
      ⟨level, after.leaveScope.1, .parsed result⟩ :: back) moments := by
  cases h with
  | missing => exact fitBetween_nil
  | broken => exact fitBetween_logs
  | visited visit => exact visit.fitBetween fun _ => .ended level result back

end Fitting

/-- **Every moment of every run fits** between what stands around it: `Fitting` is a composed
course. It is not a closed one, as a skip alone does not fit. -/
theorem composed_fitting : Composed (Fitting : Course ι ε) where
  nil _ := fitBetween_nil
  append h₁ h₂ := by
    refine fitBetween_append.mpr ⟨?_, h₂.mono (List.nil_subset _) []⟩
    exact h₁.mono (List.Subset.refl _) _
  remark _ _ _ := fitBetween_of_forall (by simp [fitsAnywhere])
  reset _ _ := fitBetween_of_forall (by simp [fitsAnywhere])
  readBody level reader node := by
    rw [Fitting, reported, fitBetween_append]
    exact ⟨fitBetween_logs, fitBetween_of_forall (by simp [fitsAnywhere])⟩
  descendEmpty level reader parent visitor closed := by
    rw [Fitting, fitBetween_cons, fitBetween_cons]
    refine ⟨.of_fitsAnywhere rfl, .of_isGrounded ?_ (by simp), fitBetween_nil⟩
    exact ⟨_, List.mem_append_right _ (List.mem_singleton.mpr rfl), visitor, rfl⟩
  descend level reader after parent inner result visitor notClosed work := by
    rw [Fitting, fitBetween_cons, fitBetween_append]
    refine ⟨.of_fitsAnywhere rfl, ?_, ?_⟩
    · -- the `.descend` in front is what a closing tag among the children needs
      cases work with
      | refused full => exact fitBetween_of_forall (by simp [fitsAnywhere])
      | @entered inner worked _ room work =>
        rw [fitBetween_cons, fitBetween_append]
        refine ⟨.of_fitsAnywhere rfl, ?_, fitBetween_of_forall (by simp [fitsAnywhere])⟩
        refine (Enumerating.fitBetween work ?_ ?_ rfl).1
        · exact ⟨⟨level, reader, .descend parent visitor⟩, by simp, visitor, rfl⟩
        · exact worked.cursor_leaveScope
    · rw [fitBetween_cons]
      refine ⟨.of_isGrounded ?_ (by simp), fitBetween_nil⟩
      exact ⟨⟨level, reader, .descend parent visitor⟩, by simp, visitor, rfl⟩
  parse level reader after inner result visitor work := by
    rw [Fitting, fitBetween_cons, fitBetween_append]
    refine ⟨.of_fitsAnywhere rfl, ?_, fitBetween_of_forall (by simp [fitsAnywhere])⟩
    cases work with
    | broken skipped => exact fitBetween_logs
    | empty skipped eof => exact fitBetween_logs
    -- behind the visit of the root element, the scope is left and the parse ends
    | element skipped notEof work =>
      rw [fitBetween_append]
      refine ⟨fitBetween_logs, ?_⟩
      cases work with
      | refused full => exact fitBetween_of_forall (by simp [fitsAnywhere])
      | entered _ room work =>
        rw [fitBetween_cons, fitBetween_append]
        refine ⟨.of_fitsAnywhere rfl, ?_, fitBetween_of_forall (by simp [fitsAnywhere])⟩
        exact RootVisiting.fitBetween work result

end Course

end TagWalk
