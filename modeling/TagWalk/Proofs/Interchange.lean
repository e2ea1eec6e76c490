import TagWalk.Proofs.Touring

/-! # Letting go and reading

Below the root element it makes no difference whether a visitor lets a node go, so that its closing tag
is searched for behind the visit, or reads its body and discards it: the search is the same, and so is
the fault if it fails. The marks that are left differ, but a tour has none, so the tours of two such
policies are alike step by step, up to the bodies that are read.

* **`Choice.passesOver`** — a node is passed over, in one way or the other.
* **`Policy.Interchanges`** — policies that differ only in how they pass nodes over.
* **`Tour.Alike`** — tours that differ only in the bodies.
* **`parse_interchange`** — the two parses show the same and come to the same. -/

namespace TagWalk

/-- **Whether a node is passed over**: its children are not visited, and its siblings are. The use
is `.ignore` or `.readBody`, and the signal is `.proceed`. -/
def Choice.passesOver (choice : Choice) : Bool :=
  choice.signal == .proceed && choice.use != .descend

/-- **Policies that are interchangeable**: they make the same choices, except that below the root
element (`seen.tail ≠ []`) each may pass a node over in a way of its own. -/
def Policy.Interchanges (first second : Policy) : Prop :=
  ∀ seen, first seen = second seen ∨
    seen.tail ≠ [] ∧ (first seen).passesOver = true ∧ (second seen).passesOver = true

/-- An account without the bodies that were read. -/
def Account.withoutBodies (account : Account) : Account := { account with bodies := [] }

namespace Tour

/-- **Tours that are alike**: they are at the same place, in the same frames, and have met the same
but for bodies. -/
inductive Alike : Tour → Tour → Prop
  /-- Among the children of the same elements. -/
  | among {cursor : Cursor} {account account' : Account} {frame : Frame} {outer : List Frame}
      (account_eq : account.withoutBodies = account'.withoutBodies) :
      Alike (among cursor account frame outer) (among cursor account' frame outer)
  /-- At the end, with the same result. -/
  | ended {cursor : Cursor} {account account' : Account} {result : Except Fault Unit}
      (account_eq : account.withoutBodies = account'.withoutBodies) :
      Alike (ended ⟨cursor, account, result⟩) (ended ⟨cursor, account', result⟩)

namespace Alike

variable {policy : Policy} {maxDepth : Nat} {cursor : Cursor} {account account' : Account}
  {node : Node} {left frame : Frame} {closed : Bool} {outer : List Frame}

/-- What is alike to a tour is alike to what the tour is alike to. -/
theorem trans_symm {first second third : Tour} (h₁ : first.Alike second) (h₂ : third.Alike second) :
    first.Alike third := by
  cases h₁ with
  | among account_eq =>
    cases h₂ with
    | among account_eq' => exact .among (account_eq.trans account_eq'.symm)
  | ended account_eq =>
    cases h₂ with
    | ended account_eq' => exact .ended (account_eq.trans account_eq'.symm)

/-- Tours that end alike end at the same place, with the same result and with the same sights. -/
theorem of_ended {finish finish' : Finish} (h : (Tour.ended finish).Alike (Tour.ended finish')) :
    finish.cursor = finish'.cursor ∧ finish.result = finish'.result ∧
      finish.account.sights = finish'.account.sights := by
  cases h with
  | ended account_eq => exact ⟨rfl, rfl, (congrArg Account.sights account_eq :)⟩

/-- Alike accounts stay alike at a visit. -/
theorem meet (h : account.withoutBodies = account'.withoutBodies) (depth : Nat) (node : Node) :
    (account.meet depth node).withoutBodies = (account'.meet depth node).withoutBodies := by
  obtain ⟨seen, sights, bodies⟩ := account
  obtain ⟨seen', sights', bodies'⟩ := account'
  cases h
  rfl

/-- Alike accounts have seen the same. -/
theorem seen_eq (h : account.withoutBodies = account'.withoutBodies) : account.seen = account'.seen :=
  (congrArg Account.seen h :)

/-- Skipping a node is alike with alike accounts. -/
theorem skip (h : account.withoutBodies = account'.withoutBodies) :
    (Tour.skip cursor account node frame outer).Alike
      (Tour.skip cursor account' node frame outer) := by
  unfold Tour.skip
  cases cursor.readBody node with
  | error fault => exact .ended h
  | ok read => exact .among h

/-- Leaving a node is alike with alike accounts, by induction on the elements that are left with
it. -/
theorem leave (h : account.withoutBodies = account'.withoutBodies) :
    (Tour.leave cursor account left closed outer).Alike
      (Tour.leave cursor account' left closed outer) := by
  induction outer generalizing left closed with
  | nil => exact .ended h
  | cons frame outer ih =>
    rw [Tour.leave, Tour.leave]
    cases left.signal with
    | stop => exact ih
    | proceed =>
      cases closed with
      | true => exact .among h
      | false => exact skip h

/-- **Whichever way a node below the root is passed over**, the tour goes on as if it were skipped:
a body that is read ends where the search of a skip ends. -/
theorem of_passesOver (h : (policy (node :: account.seen)).passesOver = true) :
    (visit policy maxDepth cursor account node (frame :: outer)).Alike
      (Tour.skip cursor (account.meet ((frame :: outer).length + 1) node) node frame outer) := by
  obtain ⟨hsignal, huse⟩ := Bool.and_eq_true_iff.mp h
  cases hchoice : policy (node :: account.seen) with
  | mk use signal =>
    rw [hchoice] at hsignal huse
    obtain rfl : signal = .proceed := eq_of_beq hsignal
    cases use with
    | ignore =>
      rw [visit_of_ignore hchoice rfl]
      exact skip rfl
    -- a skip is a reading whose body is not kept: the cursors are the same, the accounts alike
    | readBody =>
      cases hread : cursor.readBody node with
      | error fault =>
        rw [visit_of_unread (by rw [hchoice]) hread, Tour.skip, hread]
        exact .ended rfl
      | ok read =>
        rw [visit_of_read hchoice rfl hread, Tour.skip, hread]
        exact .among rfl
    | descend => cases huse

/-- The same choice at a visit is alike with alike accounts. -/
theorem visit_of_eq {first second : Policy} (h : account.withoutBodies = account'.withoutBodies)
    (hchoice : first (node :: account.seen) = second (node :: account'.seen)) :
    (visit first maxDepth cursor account node outer).Alike
      (visit second maxDepth cursor account' node outer) := by
  have hmet := meet h (outer.length + 1) node
  cases huse : (second (node :: account'.seen)).use with
  | ignore =>
    rw [visit_of_ignore hchoice huse, visit_of_ignore rfl huse]
    exact leave hmet
  | readBody =>
    cases hread : cursor.readBody node with
    | error fault =>
      rw [visit_of_unread (hchoice ▸ huse) hread, visit_of_unread huse hread]
      exact .ended hmet
    | ok read =>
      rw [visit_of_read hchoice huse hread, visit_of_read rfl huse hread]
      exact leave hmet
  | descend =>
    cases hself : node.selfClosing with
    | true =>
      rw [visit_of_childless hchoice huse hself, visit_of_childless rfl huse hself]
      exact leave hmet
    | false =>
      by_cases hfull : maxDepth ≤ outer.length + 1
      · rw [visit_of_full (hchoice ▸ huse) hself hfull, visit_of_full huse hself hfull]
        exact .ended hmet
      · rw [visit_of_room hchoice huse hself hfull, visit_of_room rfl huse hself hfull]
        exact .among hmet

section Interchange

variable {first second : Policy} (hpolicies : first.Interchanges second)

include hpolicies

/-- **Visits by interchangeable policies are alike.** The root is visited before anything else was
seen, so the choices there are the same. -/
theorem visit (h : account.withoutBodies = account'.withoutBodies)
    (hroot : outer = [] → account.seen = []) :
    (Tour.visit first maxDepth cursor account node outer).Alike
      (Tour.visit second maxDepth cursor account' node outer) := by
  have hseen := seen_eq h
  rcases hpolicies (node :: account.seen) with hsame | ⟨hbelow, hfirst, hsecond⟩
  · exact visit_of_eq h (hseen ▸ hsame)
  · -- the two choices differ only below the root, where both pass the node over
    cases outer with
    | nil => exact absurd (hroot rfl) hbelow
    | cons frame outer =>
      rw [hseen] at hsecond
      have hskip : (Tour.visit second maxDepth cursor account' node (frame :: outer)).Alike
          (Tour.skip cursor (account.meet ((frame :: outer).length + 1) node) node frame outer) :=
        (of_passesOver hsecond).trans_symm (skip (meet h _ node))
      exact (of_passesOver hfirst).trans_symm hskip

/-- Tags are entered alike. -/
theorem enter {options : Options} {tag : Tag} (h : account.withoutBodies = account'.withoutBodies)
    (hroot : outer = [] → account.seen = []) :
    (Tour.enter first options cursor account tag outer).Alike
      (Tour.enter second options cursor account' tag outer) := by
  unfold Tour.enter
  cases cursor.decodeTag options.overflow tag with
  | error fault => exact .ended h
  | ok node => exact visit hpolicies h hroot

/-- **Every step keeps tours alike**: both see the same next tag, and differ in bodies at most. -/
theorem step {options : Options} {tour tour' : Tour} (h : tour.Alike tour') :
    (Tour.step first options tour).Alike (Tour.step second options tour') := by
  cases h with
  | ended account_eq => exact .ended account_eq
  | @among cursor account account' frame outer account_eq =>
    cases hnext : cursor.nextTag with
    | error fault =>
      rw [step_of_error hnext, step_of_error hnext]
      exact .ended account_eq
    | ok tag =>
      cases hkind : cursor.kindOf tag with
      | closing =>
        rw [step_of_closing hnext hkind, step_of_closing hnext hkind]
        exact leave account_eq
      | markup =>
        rw [step_of_markup hnext hkind, step_of_markup hnext hkind]
        exact .among account_eq
      | element =>
        rw [step_of_element hnext hkind, step_of_element hnext hkind]
        exact enter hpolicies account_eq fun hnil => by cases hnil

/-- **Tours that are alike come to the same**, by induction on the steps, which both make alike. -/
theorem run {options : Options} {tour tour' : Tour} (h : tour.Alike tour') :
    (Tour.ended (tour.run first options)).Alike (Tour.ended (tour'.run second options)) := by
  induction tour using Tour.run.induct first options generalizing tour' with
  | case1 finish =>
    cases h with
    | ended account_eq => simpa using .ended account_eq
  | case2 cursor account frame outer ih =>
    have hstep := ih (step hpolicies h)
    rwa [run_step, run_step] at hstep

end Interchange

end Alike

/-- Tours of interchangeable policies begin alike. -/
theorem Alike.start {first second : Policy} (hpolicies : first.Interchanges second)
    (options : Options) (cursor : Cursor) :
    (Tour.start first options cursor).Alike (Tour.start second options cursor) := by
  unfold Tour.start
  split
  · exact .ended rfl
  · split
    · exact .ended rfl
    · split
      · exact .ended rfl
      · split
        · exact .ended rfl
        · exact enter hpolicies rfl fun _ => rfl

end Tour

/-- **Letting go and reading are interchangeable.** On every document, well formed or not, and with
any options, let `first.Interchanges second`: the two policies differ only in how they pass over
nodes below the root element. Then they make the same visits at the same depths and places
(`ended.sights = ended'.sights`), with the same result, and end at the same place without open
scopes. -/
theorem parse_interchange {first second : Policy} (hpolicies : first.Interchanges second)
    (options : Options) {document : Bytes} {fuel : Nat} (hfuel : document.length < fuel) :
    ∃ ended ended' result,
      first.parse fuel (.ofDocument document options) = some (ended, result) ∧
      second.parse fuel (.ofDocument document options) = some (ended', result) ∧
      ended.sights = ended'.sights ∧ ended.reader.cursor = ended'.reader.cursor ∧
      ended.reader.scopes = [] ∧ ended'.reader.scopes = [] := by
  obtain ⟨ended, result, hrun, hscopes, htour⟩ := parse_eq_tour first options hfuel
  obtain ⟨ended', result', hrun', hscopes', htour'⟩ := parse_eq_tour second options hfuel
  -- the tours of both are alike from the prolog on
  have halike : (Tour.ended (first.tour options (.ofDocument document))).Alike
      (Tour.ended (second.tour options (.ofDocument document))) := by
    unfold Policy.tour
    cases (Cursor.ofDocument document).skipProlog.2.result with
    | error fault => exact .ended rfl
    | ok done => exact .run hpolicies (.start hpolicies options _)
  rw [htour, htour'] at halike
  obtain ⟨hcursor, hresult, hsights⟩ := halike.of_ended
  obtain rfl : result = result' := hresult
  exact ⟨ended, ended', result, hrun, hrun', hsights, hcursor, hscopes, hscopes'⟩

/-- The policies that descend into the root element alone, and let go of its children or read them,
by `use`. -/
def passBelow (use : Use) : Policy
  | _ :: _ :: _ => ⟨use, .proceed⟩
  | _ => ⟨.descend, .proceed⟩

/-- In `<a><b>x</b></a>`, both ways to pass over `b` show the same, and leave the reader at the same
place. -/
theorem parse_interchange_passBelow :
    (passBelow .ignore).Interchanges (passBelow .readBody) ∧
      ∃ ended ended' result,
        (passBelow .ignore).parse 16 (.ofDocument documentWithBody .lenient) = some (ended, result) ∧
        (passBelow .readBody).parse 16 (.ofDocument documentWithBody .lenient) = some (ended', result) ∧
        ended.sights = ended'.sights ∧ ended.reader.cursor = ended'.reader.cursor ∧
        ended.reader.scopes = [] ∧ ended'.reader.scopes = [] := by
  have hpolicies : (passBelow .ignore).Interchanges (passBelow .readBody) := by
    intro seen
    match seen with
    | [] => exact .inl rfl
    | [_] => exact .inl rfl
    | _ :: _ :: _ => exact .inr ⟨nofun, rfl, rfl⟩
  have hfuel : documentWithBody.length < 16 := by decide
  exact ⟨hpolicies, parse_interchange hpolicies .lenient hfuel⟩

end TagWalk
