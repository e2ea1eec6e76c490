import TagWalk.Proofs.Decoding
import TagWalk.Proofs.Touring

/-! # Stricter options

Options limit a reader in two ways, by a bound on open scopes and by refusing surplus attributes. A
stricter reader does what a more lenient one does until it meets a limit, and there it fails: no
choice of a policy depends on the options, and a tag that both decode is the same node for both.

* **`Options.IsStricter`** — a lower bound, or surplus attributes refused instead of dropped.
* **`Account.IsFrontOf`** — an account that another one continues; accounts only grow along a tour.
* **`Tour.Shortens`** — a tour that is the other one, or failed at a limit on its way.
* **`parse_of_stricter`** — stricter options only cut a parse short. -/

namespace TagWalk

/-! ## Options and limits -/

/-- **Options that are at least as strict**: no more scopes, and surplus attributes are treated
alike or refused. All options are at least as strict as themselves. -/
structure Options.IsStricter (strict lenient : Options) : Prop where
  /-- No more scopes may be open. -/
  maxDepth_le : strict.maxDepth ≤ lenient.maxDepth
  /-- Surplus attributes are not dropped where the other options refuse them. -/
  overflow_eq : strict.overflow = lenient.overflow ∨
    strict.overflow = .reject ∧ lenient.overflow = .truncate

/-- Whether a fault says that a limit of the options was met: `depthExceeded` or
`tooManyAttributes`. -/
def Fault.isOfLimit : Fault → Bool
  | .depthExceeded _ | .tooManyAttributes .. => true
  | _ => false

/-- **Stricter options decode a tag alike**, or refuse its attributes, with a fault for which
`isOfLimit` holds. -/
theorem Cursor.decodeTag_of_stricter {strict lenient : Options} (h : strict.IsStricter lenient)
    (cursor : Cursor) (tag : Tag) :
    cursor.decodeTag strict.overflow tag = cursor.decodeTag lenient.overflow tag ∨
      ∃ fault, cursor.decodeTag strict.overflow tag = .error fault ∧ fault.isOfLimit = true := by
  rcases h.overflow_eq with hsame | ⟨hreject, htruncate⟩
  · exact .inl (by rw [hsame])
  · rw [hreject, htruncate]
    unfold decodeTag
    dsimp only
    generalize cursor.document.slice (tag.start + 1) tag.stop = text
    by_cases hname : Declaration.nameIn text = []
    · exact .inl (by rw [Declaration.decode_of_nameless hname, Declaration.decode_of_nameless hname])
    · by_cases hroom : (Declaration.attributesIn text).length ≤ AttributeList.capacity
      · exact .inl
          (by rw [Declaration.decode_of_room hname hroom, Declaration.decode_of_room hname hroom])
      · obtain ⟨-, hrefused⟩ :=
          Declaration.decode_of_surplus tag.start hname (Nat.not_le.mp hroom)
        rw [hrefused]
        exact .inr ⟨_, rfl, rfl⟩

/-! ## Accounts grow -/

/-- **An account that another one continues**: its sights and its bodies are the first ones of the
other. -/
structure Account.IsFrontOf (before after : Account) : Prop where
  /-- What was shown comes first. -/
  sights : before.sights <+: after.sights
  /-- The bodies that were read come first. -/
  bodies : before.bodies <+: after.bodies

namespace Account

theorem IsFrontOf.refl (account : Account) : account.IsFrontOf account :=
  ⟨List.prefix_rfl, List.prefix_rfl⟩

theorem IsFrontOf.trans {before between after : Account} (h₁ : before.IsFrontOf between)
    (h₂ : between.IsFrontOf after) : before.IsFrontOf after :=
  ⟨h₁.sights.trans h₂.sights, h₁.bodies.trans h₂.bodies⟩

/-- Every account continues the blank one. -/
theorem blank_isFrontOf (account : Account) : blank.IsFrontOf account :=
  ⟨List.nil_prefix, List.nil_prefix⟩

theorem isFrontOf_meet (account : Account) (depth : Nat) (node : Node) :
    account.IsFrontOf (account.meet depth node) :=
  ⟨List.prefix_append _ _, List.prefix_rfl⟩

theorem isFrontOf_read (account : Account) (body : Bytes) : account.IsFrontOf (account.read body) :=
  ⟨List.prefix_rfl, List.prefix_append _ _⟩

end Account

/-- What a tour has met. -/
def Tour.account : Tour → Account
  | among _ account _ _ => account
  | ended finish => finish.account

namespace Tour

variable {policy : Policy} {cursor : Cursor} {account : Account} {node : Node} {left frame : Frame}
  {closed : Bool} {outer : List Frame} {tag : Tag}

/-- Nothing is met while a node is skipped. -/
@[simp] theorem account_skip : (skip cursor account node frame outer).account = account := by
  unfold skip
  split <;> rfl

/-- Nothing is met while nodes are left, by induction on the elements around them. -/
@[simp] theorem account_leave : (leave cursor account left closed outer).account = account := by
  induction outer generalizing left closed with
  | nil => rfl
  | cons frame outer ih =>
    rw [leave]
    split
    · exact ih
    · split
      · rfl
      · exact account_skip

/-- A visit meets its node. -/
theorem isFrontOf_visit {maxDepth : Nat} :
    (account.meet (outer.length + 1) node).IsFrontOf
      (visit policy maxDepth cursor account node outer).account := by
  unfold visit
  dsimp only
  split
  · rw [account_leave]
    exact .refl _
  · split
    · exact .refl _
    · rw [account_leave]
      exact Account.isFrontOf_read _ _
  · split
    · rw [account_leave]
      exact .refl _
    · split
      · exact .refl _
      · exact .refl _

variable {options : Options}

/-- A tag that is entered adds to what was met. -/
theorem isFrontOf_enter : account.IsFrontOf (enter policy options cursor account tag outer).account := by
  unfold enter
  split
  · exact .refl _
  · exact (account.isFrontOf_meet _ _).trans isFrontOf_visit

/-- **A step adds to what was met**: `tour.account.IsFrontOf (tour.step policy options).account`. -/
theorem isFrontOf_step (tour : Tour) : tour.account.IsFrontOf (tour.step policy options).account := by
  cases tour with
  | ended finish => exact .refl _
  | among cursor account frame outer =>
    rw [step]
    split
    · exact .refl _
    · split
      · rw [account_leave]
        exact .refl _
      · exact .refl _
      · exact isFrontOf_enter

/-- **What was met on the way is met in the end**, by induction on the steps: `tour.account` is the
front of that of `tour.run`. -/
theorem isFrontOf_run (tour : Tour) : tour.account.IsFrontOf (tour.run policy options).account := by
  induction tour using Tour.run.induct policy options with
  | case1 finish =>
    rw [run_ended]
    exact .refl _
  | case2 cursor account frame outer ih =>
    rw [run_step] at ih
    exact (isFrontOf_step _).trans ih

/-! ## Tours that are cut short -/

/-- **A tour that shortens another**: it is the `same`, or it is `cut`, since it has failed at a
limit after meeting some of what the other one has met. -/
inductive Shortens : Tour → Tour → Prop
  /-- No limit was met. -/
  | same (tour : Tour) : Shortens tour tour
  /-- A limit was met. -/
  | cut {cursor : Cursor} {account : Account} {fault : Fault} {other : Tour}
      (isOfLimit : fault.isOfLimit = true) (isFrontOf : account.IsFrontOf other.account) :
      Shortens (failed cursor account fault) other

namespace Shortens

/-- **A lower bound on open scopes** leaves a visit alone, or is met at its descent: only `.descend`
looks at the bound. -/
theorem visit {fewer more : Nat} (h : fewer ≤ more) :
    Shortens (Tour.visit policy fewer cursor account node outer)
      (Tour.visit policy more cursor account node outer) := by
  cases huse : (policy (node :: account.seen)).use with
  | ignore =>
    rw [visit_of_ignore rfl huse, visit_of_ignore rfl huse]
    exact .same _
  | readBody =>
    cases hread : cursor.readBody node with
    | error fault =>
      rw [visit_of_unread huse hread, visit_of_unread huse hread]
      exact .same _
    | ok read =>
      rw [visit_of_read rfl huse hread, visit_of_read rfl huse hread]
      exact .same _
  | descend =>
    cases hself : node.selfClosing with
    | true =>
      rw [visit_of_childless rfl huse hself, visit_of_childless rfl huse hself]
      exact .same _
    | false =>
      by_cases hfull : fewer ≤ outer.length + 1
      · rw [visit_of_full huse hself hfull]
        exact .cut rfl isFrontOf_visit
      · have hroom : ¬ more ≤ outer.length + 1 := fun hmore => hfull (Nat.le_trans h hmore)
        rw [visit_of_room rfl huse hself hfull, visit_of_room rfl huse hself hroom]
        exact .same _

variable {strict lenient : Options} (h : strict.IsStricter lenient)

include h

/-- A tag is entered alike, or a limit is met. -/
theorem enter :
    Shortens (Tour.enter policy strict cursor account tag outer)
      (Tour.enter policy lenient cursor account tag outer) := by
  rcases cursor.decodeTag_of_stricter h tag with hsame | ⟨fault, hfault, hlimit⟩
  · unfold Tour.enter
    rw [hsame]
    split
    · exact .same _
    · exact visit h.maxDepth_le
  · rw [enter_of_error hfault]
    exact .cut hlimit isFrontOf_enter

/-- **Every step is the same**, or a limit is met: `Shortens` relates what the two options make of
one tour. -/
theorem step (tour : Tour) : Shortens (tour.step policy strict) (tour.step policy lenient) := by
  cases tour with
  | ended finish => exact .same _
  | among cursor account frame outer =>
    rw [Tour.step, Tour.step]
    split
    · exact .same _
    · split
      · exact .same _
      · exact .same _
      · exact enter h

/-- **A whole run is the same, or it is cut short**, by induction on the steps: what the other run
meets behind the cut is added to what both have met, so `Shortens` holds of the two ends. -/
theorem run {tour tour' : Tour} (hshort : Shortens tour tour') :
    Shortens (ended (tour.run policy strict)) (ended (tour'.run policy lenient)) := by
  induction tour using Tour.run.induct policy strict generalizing tour' with
  | case1 finish =>
    cases hshort with
    | same =>
      rw [run_ended, run_ended]
      exact .same _
    | cut hlimit hfront =>
      rw [run_ended]
      exact .cut hlimit (hfront.trans (isFrontOf_run tour'))
  | case2 cursor account frame outer ih =>
    cases hshort with
    | same =>
      have hnext := ih (step h _)
      rwa [run_step, run_step] at hnext

/-- The root element is met alike, or a limit is. -/
theorem start (cursor : Cursor) :
    Shortens (Tour.start policy strict cursor) (Tour.start policy lenient cursor) := by
  have hblank : ∀ other : Tour, Account.blank.IsFrontOf other.account :=
    fun other => Account.blank_isFrontOf _
  by_cases hfull : strict.maxDepth = 0
  · -- no scope at all is admitted, which is a limit that the other options may not have
    unfold Tour.start
    rw [if_pos hfull]
    split
    · exact .same _
    · exact .cut rfl (hblank _)
  · have hroom : ¬ lenient.maxDepth = 0 :=
      fun hzero => hfull (Nat.le_zero.mp (hzero ▸ h.maxDepth_le))
    unfold Tour.start
    rw [if_neg hfull, if_neg hroom]
    split
    · exact .same _
    · split
      · exact .same _
      · split
        · exact .same _
        · exact enter h

omit h

/-- **What a shortened tour comes to**: it has met the front of what the other one has met, and
without a limit it comes to the same, `finish = finish'`. -/
theorem of_ended {finish finish' : Finish} (hshort : Shortens (ended finish) (ended finish')) :
    finish.account.IsFrontOf finish'.account ∧
      ((∀ fault, finish.result = .error fault → fault.isOfLimit = false) → finish = finish') := by
  cases hshort with
  | same => exact ⟨.refl _, fun _ => rfl⟩
  | cut hlimit hfront =>
    refine ⟨hfront, fun hnone => ?_⟩
    rw [hnone _ rfl] at hlimit
    cases hlimit

end Shortens

end Tour

/-- The tour of a whole document is the same, or it is cut short: the prolog is skipped without a
look at the options. -/
theorem Policy.tour_of_stricter (policy : Policy) {strict lenient : Options}
    (h : strict.IsStricter lenient) (cursor : Cursor) :
    (Tour.ended (policy.tour strict cursor)).Shortens (Tour.ended (policy.tour lenient cursor)) := by
  unfold Policy.tour
  split
  · exact .same _
  · exact .run h (.start h _)

/-- **Stricter options only cut a parse short.** On every document and for every policy, what is
visited with stricter options, how deep and where, is the front of what is visited with more lenient
ones, `ended.sights <+: ended'.sights`, and so are the bodies. Unless a limit of the options is met,
that is unless the result is a fault with `fault.isOfLimit`, both parses make the same visits, read
the same bodies, and end at the same place with the same result. -/
theorem parse_of_stricter (policy : Policy) {strict lenient : Options}
    (h : strict.IsStricter lenient) {document : Bytes} {fuel : Nat} (hfuel : document.length < fuel) :
    ∃ ended ended' result result',
      policy.parse fuel (.ofDocument document strict) = some (ended, result) ∧
      policy.parse fuel (.ofDocument document lenient) = some (ended', result') ∧
      ended.sights <+: ended'.sights ∧ ended.bodies <+: ended'.bodies ∧
      ((∀ fault, result = .error fault → fault.isOfLimit = false) →
        ended.sights = ended'.sights ∧ ended.bodies = ended'.bodies ∧ result = result' ∧
        ended.reader.position = ended'.reader.position) := by
  obtain ⟨ended, result, hrun, -, htour⟩ := parse_eq_tour policy strict hfuel
  obtain ⟨ended', result', hrun', -, htour'⟩ := parse_eq_tour policy lenient hfuel
  -- the two parses are compared by their tours
  have hshort := policy.tour_of_stricter h (.ofDocument document)
  rw [htour, htour'] at hshort
  obtain ⟨⟨hsights, hbodies⟩, hsame⟩ := hshort.of_ended
  refine ⟨ended, ended', result, result', hrun, hrun', hsights, hbodies, fun hnone => ?_⟩
  obtain ⟨hcursor, haccount, hresult⟩ := Finish.mk.inj (hsame hnone)
  exact ⟨congrArg Account.sights haccount, congrArg Account.bodies haccount, hresult,
    congrArg Cursor.position hcursor⟩

/-- With room for the document's own scope alone, `a` is visited and nothing in it is. -/
example : (readSecond.tour ⟨.reject, 1⟩ (.ofDocument documentWithBody)).account.sights.length = 1 ∧
    (readSecond.tour ⟨.reject, 1⟩ (.ofDocument documentWithBody)).result.isOk = false := by
  decide +kernel

/-- In `<a><b>x</b></a>`, two scopes are enough to read the body of `b` as lenient options do. -/
theorem parse_of_stricter_documentWithBody :
    Options.IsStricter ⟨.reject, 2⟩ .lenient ∧
      ∃ ended ended', readSecond.parse 16 (.ofDocument documentWithBody ⟨.reject, 2⟩) =
          some (ended, .ok ()) ∧
        readSecond.parse 16 (.ofDocument documentWithBody .lenient) = some (ended', .ok ()) ∧
        ended.sights = ended'.sights ∧ ended.bodies = ended'.bodies ∧ ended'.bodies = [[0x78]] ∧
        ended.reader.position = ended'.reader.position := by
  have hstricter : Options.IsStricter ⟨.reject, 2⟩ .lenient := ⟨by decide, .inr ⟨rfl, rfl⟩⟩
  have hfuel : documentWithBody.length < 16 := by decide
  obtain ⟨ended, ended', result, result', hrun, hrun', -, -, hsame⟩ :=
    parse_of_stricter readSecond hstricter hfuel
  -- the tour with two scopes is computed, and no limit is met
  obtain ⟨same, result'', hrun'', -, htour⟩ := parse_eq_tour readSecond ⟨.reject, 2⟩ hfuel
  obtain ⟨rfl, rfl⟩ := Prod.mk.inj (Option.some.inj (hrun''.symm.trans hrun))
  have hok : (readSecond.tour ⟨.reject, 2⟩ (.ofDocument documentWithBody)).result = .ok () := by
    with_unfolding_all rfl
  have hbodies : (readSecond.tour ⟨.reject, 2⟩ (.ofDocument documentWithBody)).account.bodies =
      [[0x78]] := by decide +kernel
  rw [htour] at hok hbodies
  obtain rfl : result'' = .ok () := hok
  obtain ⟨hsights, hsameBodies, rfl, hposition⟩ := hsame nofun
  exact ⟨hstricter, same, ended', hrun, hrun', hsights, hsameBodies, hsameBodies ▸ hbodies, hposition⟩

end TagWalk
