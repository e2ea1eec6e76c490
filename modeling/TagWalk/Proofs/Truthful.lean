import TagWalk.Proofs.Decoding
import TagWalk.Proofs.Touring

/-! # Faults tell the truth

A fault names its cause with figures: offsets, lengths, names and bounds. They come from different
places, from the cursor, from a tag or from a node that was visited long before, and a fault passes
through all elements that enclose its cause. Here it is said once what each fault asserts of the
document, and every fault that a parse ends with is shown to hold.

* **`Fault.Describes`** — what each fault says.
* **`Cursor.describes_of_nextTag`**, **`Cursor.describes_of_decodeTag`**,
  **`Cursor.describes_of_readBody`** — the faults of the three things that a tour does with a cursor.
* **`Tour.IsTruthful`** — tours whose faults, when they come, are told of visited nodes.
* **`describes_of_parse`** — the fault that a parse ends with describes the document. -/

namespace TagWalk

/-! ## What faults say -/

/-- **What a fault says** of a document that was read with some options, when the visits so far have
shown `sights` and reading ended at `position`. Each constructor has a fault at its end, with the
figures that its conditions are about: `missingTagStart position` says that no `<` stands at
`position` or behind. -/
inductive Fault.Describes (options : Options) (document : Bytes) (sights : List Sight)
    (position : Nat) : Fault → Prop
  /-- No `<` stands where reading ended, or behind. -/
  | missingTagStart (absent : ∀ i, position ≤ i → document[i]? ≠ some Byte.lessThan) :
      Describes options document sights position (.missingTagStart position)
  /-- A `<` stands at the offset, and no `>` behind it. -/
  | missingTagEnd {start : Nat} (opens : document[start]? = some Byte.lessThan)
      (absent : ∀ i, start < i → document[i]? ≠ some Byte.greaterThan) :
      Describes options document sights position (.missingTagEnd start)
  /-- A `<` stands at the offset, with a space or a `>` behind it. -/
  | emptyDeclaration {start : Nat} (opens : document[start]? = some Byte.lessThan)
      (nameless : document[start + 1]? = some Byte.space ∨
        document[start + 1]? = some Byte.greaterThan) :
      Describes options document sights position (.emptyDeclaration start)
  /-- Reading ended on a `</`, before anything was visited. -/
  | unexpectedClosingTag (opens : document[position]? = some Byte.lessThan)
      (closes : document[position + 1]? = some Byte.slash) (unseen : sights = []) :
      Describes options document sights position (.unexpectedClosingTag position)
  /-- Behind the opening tag of a visited node there is no room for its closing tag. -/
  | closingTagOutOfRange {node : Node} {remaining : Nat}
      (visited : ∃ sight ∈ sights, sight.node = node) (opened : node.selfClosing = false)
      (remains : node.bodyStart + remaining = document.length)
      (short : remaining < node.name.length + 3) :
      Describes options document sights position
        (.closingTagOutOfRange (Utf8.lossy node.name) remaining)
  /-- The name of a visited node is too long. -/
  | nameTooLong {node : Node} (visited : ∃ sight ∈ sights, sight.node = node)
      (opened : node.selfClosing = false) (long : 256 < node.name.length) :
      Describes options document sights position (.nameTooLong node.name.length 256)
  /-- The closing tag of a visited node does not occur behind its opening tag. -/
  | closingTagNotFound {node : Node} (visited : ∃ sight ∈ sights, sight.node = node)
      (opened : node.selfClosing = false)
      (absent : ∀ i, node.bodyStart ≤ i → ¬ node.closingTag <+: document.drop i) :
      Describes options document sights position (.closingTagNotFound (Utf8.lossy node.name))
  /-- Surplus attributes are refused, and the tag behind which reading ended declares more than ten. -/
  | tooManyAttributes {start stop : Nat} (refused : options.overflow = .reject)
      (opens : document[start]? = some Byte.lessThan)
      (ends : document[stop]? = some Byte.greaterThan) (position_eq : position = stop + 1)
      (within : ∀ i, start < i → i < stop → document[i]? ≠ some Byte.greaterThan)
      (surplus : 10 < (Declaration.attributesIn (document.slice (start + 1) stop)).length) :
      Describes options document sights position
        (.tooManyAttributes
          (Utf8.lossy (Declaration.nameIn (document.slice (start + 1) stop))) 10)
  /-- No scope may be open at all, and nothing was visited. -/
  | depthExceeded_root (unseen : sights = []) (full : options.maxDepth = 0) :
      Describes options document sights position (.depthExceeded options.maxDepth)
  /-- At the last visit, that of a node with a body, all scopes were open. -/
  | depthExceeded {front : List Sight} {sight : Sight} (last : sights = front ++ [sight])
      (opened : sight.node.selfClosing = false) (full : sight.depth = options.maxDepth) :
      Describes options document sights position (.depthExceeded options.maxDepth)

/-- A node that was visited in a document: one of the `sights` is of it, and its body starts in the
document. -/
structure Node.IsVisited (node : Node) (document : Bytes) (sights : List Sight) : Prop where
  /-- It was shown. -/
  exists_sight : ∃ sight ∈ sights, sight.node = node
  /-- Its tag is in the document. -/
  bodyStart_le : node.bodyStart ≤ document.length

/-! ## The faults of a cursor -/

namespace Cursor

variable {options : Options} {cursor : Cursor} {sights : List Sight} {tag : Tag} {node : Node}
  {fault : Fault}

/-- **A tag that cannot be found** is told truthfully: `missingTagStart` where the cursor stands, or
`missingTagEnd` at a `<`. -/
theorem describes_of_nextTag (h : cursor.nextTag = .error fault) :
    fault.Describes options cursor.document sights cursor.position := by
  unfold nextTag at h
  cases hstart : cursor.findByte? Byte.lessThan with
  | none =>
    rw [hstart] at h
    cases h
    exact .missingTagStart (findByteFrom?_eq_none_iff.mp hstart)
  | some start =>
    rw [hstart] at h
    dsimp only at h
    cases hstop : cursor.findByteFrom? (start + 1) Byte.greaterThan with
    | none =>
      rw [hstop] at h
      cases h
      exact .missingTagEnd (findByteFrom?_eq_some hstart).2 (findByteFrom?_eq_none_iff.mp hstop)
    | some stop =>
      rw [hstop] at h
      cases h

/-- Behind a `<` that opens no closing tag, a text without a name is empty or begins with a space. -/
theorem nameless_of_nextTag (hnext : cursor.nextTag = .ok tag) (hkind : cursor.kindOf tag ≠ .closing)
    (hname : Declaration.nameIn (cursor.document.slice (tag.start + 1) tag.stop) = []) :
    cursor.document[tag.start + 1]? = some Byte.space ∨
      cursor.document[tag.start + 1]? = some Byte.greaterThan := by
  have hbounds := nextTag_bounds hnext
  by_cases hshort : tag.start + 1 = tag.stop
  · rw [hshort]
    exact .inr (document_of_nextTag hnext).2
  · -- the text begins with the byte behind the `<`
    have hfirst : (cursor.document.slice (tag.start + 1) tag.stop).head? =
        cursor.document[tag.start + 1]? := by
      rw [Bytes.slice, List.head?_take, if_neg (by omega), List.head?_drop]
    rcases Declaration.text_of_nameless hname with hempty | hspace | hslash
    · have hlength := congrArg List.length hempty
      rw [Bytes.length_slice, List.length_nil] at hlength
      omega
    · exact .inl (hfirst.symm.trans hspace)
    · rw [hslash] at hfirst
      refine absurd ?_ hkind
      rw [kindOf, byteAt?, ← hfirst]
      rfl

/-- **A tag that is not decoded** is told truthfully, once it is passed: it has no name, or surplus
attributes that are refused. -/
theorem describes_of_decodeTag (hnext : cursor.nextTag = .ok tag)
    (hkind : cursor.kindOf tag ≠ .closing)
    (h : cursor.decodeTag options.overflow tag = .error fault) :
    fault.Describes options cursor.document sights (cursor.passTag tag).position := by
  obtain ⟨hopens, hends⟩ := document_of_nextTag hnext
  have hdecode := decodeTag_eq_error_iff.mp h
  rcases Declaration.result_decode_eq_error_iff.mp hdecode with
    ⟨hname, rfl⟩ | ⟨-, hreject, hsurplus, rfl⟩
  · exact .emptyDeclaration hopens (nameless_of_nextTag hnext hkind hname)
  · obtain ⟨-, hstop⟩ := nextTag_eq_ok_iff.mp hnext
    exact .tooManyAttributes hreject hopens hends (position_passTag hnext)
      (findByteFrom?_eq_some_iff.mp hstop).2.2 hsurplus

/-- **A body that cannot be read** is told truthfully of a node that was visited: its closing tag
has no room, its name is too long, or the tag occurs nowhere. -/
theorem describes_of_readBody (hvisited : node.IsVisited cursor.document sights)
    (h : cursor.readBody node = .error fault) :
    fault.Describes options cursor.document sights cursor.position := by
  obtain ⟨hopened, hfound⟩ := readBody_eq_error_iff.mp h
  have hlength : (cursor.tailFrom node.bodyStart).length =
      cursor.document.length - node.bodyStart := List.length_drop
  simp only [closingTagOf, hlength, Node.length_closingTag] at hfound
  split at hfound
  · rename_i hshort
    cases hfound
    have hstart := hvisited.bodyStart_le
    exact .closingTagOutOfRange hvisited.exists_sight hopened (by omega) hshort
  · split at hfound
    · rename_i hlong
      cases hfound
      exact .nameTooLong hvisited.exists_sight hopened hlong
    · split at hfound
      · rename_i hnone
        cases hfound
        exact .closingTagNotFound hvisited.exists_sight hopened (findFrom?_eq_none_iff.mp hnone)
      · cases hfound

end Cursor

/-! ## Tours -/

namespace Tour

/-- **Tours that tell the truth.** The elements that were descended into were visited, and one more
scope is open for each of them; a fault describes the document. -/
inductive IsTruthful (options : Options) (document : Bytes) : Tour → Prop
  /-- Among the children of an element. -/
  | among {cursor : Cursor} {account : Account} {frame : Frame} {outer : List Frame}
      (document_eq : cursor.document = document) (room : outer.length + 1 < options.maxDepth)
      (visited : ∀ entered ∈ frame :: outer, entered.node.IsVisited document account.sights) :
      IsTruthful options document (among cursor account frame outer)
  /-- At the end. -/
  | ended {finish : Finish} (describes : ∀ fault, finish.result = .error fault →
      fault.Describes options document finish.account.sights finish.cursor.position) :
      IsTruthful options document (ended finish)

namespace IsTruthful

variable {policy : Policy} {options : Options} {document : Bytes} {cursor : Cursor}
  {account : Account} {node : Node} {left frame : Frame} {closed : Bool} {outer : List Frame}
  {tag : Tag} {fault : Fault}

/-- A tour that fails for a true reason. -/
theorem of_failed
    (h : fault.Describes options document account.sights cursor.position) :
    IsTruthful options document (failed cursor account fault) := by
  refine .ended fun other hother => ?_
  obtain rfl := Except.error.inj hother
  exact h

/-- A tour that ends well. -/
theorem of_ok : IsTruthful options document (Tour.ended ⟨cursor, account, .ok ()⟩) :=
  .ended fun _ herror => nomatch herror

/-- Skipping a visited node goes on with the truth. -/
theorem skip (hdocument : cursor.document = document)
    (hroom : outer.length + 1 < options.maxDepth)
    (hvisited : ∀ entered ∈ frame :: outer, entered.node.IsVisited document account.sights)
    (hnode : node.IsVisited document account.sights) :
    IsTruthful options document (Tour.skip cursor account node frame outer) := by
  subst hdocument
  unfold Tour.skip
  split
  · rename_i hread
    exact of_failed (Cursor.describes_of_readBody hnode hread)
  · rename_i hread
    exact .among (Cursor.document_readBody hread).1 hroom hvisited

/-- **Leaving visited nodes goes on with the truth**, by induction on the elements that are left:
each of them was visited, so a skip that fails tells of a visited node. -/
theorem leave (hdocument : cursor.document = document) (hroom : outer.length < options.maxDepth)
    (hvisited : ∀ entered ∈ left :: outer, entered.node.IsVisited document account.sights) :
    IsTruthful options document (Tour.leave cursor account left closed outer) := by
  induction outer generalizing left closed with
  | nil => exact of_ok
  | cons frame outer ih =>
    obtain ⟨hleft, houter⟩ := List.forall_mem_cons.mp hvisited
    rw [Tour.leave]
    split
    · exact ih (Nat.lt_of_succ_lt hroom) houter
    · split
      · exact .among hdocument hroom houter
      · exact skip hdocument hroom houter hleft

/-- **A visit goes on with the truth**: the node is visited from then on, and a descent for which there
is no room fails with all scopes open. -/
theorem visit (hdocument : cursor.document = document) (hroom : outer.length < options.maxDepth)
    (hvisited : ∀ entered ∈ outer, entered.node.IsVisited document account.sights)
    (hstart : node.bodyStart ≤ document.length) :
    IsTruthful options document (Tour.visit policy options.maxDepth cursor account node outer) := by
  have hnode : node.IsVisited document (account.meet (outer.length + 1) node).sights :=
    ⟨⟨_, List.mem_append_right _ (List.mem_singleton_self _), rfl⟩, hstart⟩
  -- the node and all elements around it are visited by now, whatever it is answered
  have hall : ∀ signal, ∀ entered ∈ (⟨node, signal⟩ : Frame) :: outer,
      entered.node.IsVisited document (account.meet (outer.length + 1) node).sights := by
    intro signal
    refine List.forall_mem_cons.mpr ⟨hnode, fun entered hentered => ?_⟩
    obtain ⟨⟨sight, hsight, hsame⟩, hinside⟩ := hvisited entered hentered
    exact ⟨⟨sight, List.mem_append_left _ hsight, hsame⟩, hinside⟩
  cases huse : (policy (node :: account.seen)).use with
  | ignore =>
    rw [visit_of_ignore rfl huse]
    exact leave hdocument hroom (hall _)
  | readBody =>
    cases hread : cursor.readBody node with
    | error fault =>
      rw [visit_of_unread huse hread]
      subst hdocument
      exact of_failed (Cursor.describes_of_readBody hnode hread)
    | ok read =>
      rw [visit_of_read rfl huse hread]
      exact leave ((Cursor.document_readBody hread).1.trans hdocument) hroom (hall _)
  | descend =>
    cases hself : node.selfClosing with
    | true =>
      rw [visit_of_childless rfl huse hself]
      exact leave hdocument hroom (hall _)
    | false =>
      by_cases hfull : options.maxDepth ≤ outer.length + 1
      · rw [visit_of_full huse hself hfull]
        exact of_failed (.depthExceeded rfl hself (Nat.le_antisymm hroom hfull))
      · rw [visit_of_room rfl huse hself hfull]
        exact .among hdocument (Nat.not_le.mp hfull) (hall _)

/-- **A tag is entered with the truth**, with its node `IsVisited` from then on. -/
theorem enter (hdocument : cursor.document = document) (hnext : cursor.nextTag = .ok tag)
    (hkind : cursor.kindOf tag ≠ .closing) (hroom : outer.length < options.maxDepth)
    (hvisited : ∀ entered ∈ outer, entered.node.IsVisited document account.sights) :
    IsTruthful options document (Tour.enter policy options cursor account tag outer) := by
  subst hdocument
  unfold Tour.enter
  split
  · rename_i hdecode
    exact of_failed (Cursor.describes_of_decodeTag hnext hkind hdecode)
  · rename_i node hdecode
    have hstart : node.bodyStart = (cursor.passTag tag).position :=
      (Cursor.decodeTag_eq_ok_iff.mp hdecode).2
    exact visit rfl hroom hvisited (hstart ▸ (cursor.passTag tag).position_le)

/-- **Every step goes on with the truth**: `IsTruthful` holds of `tour.step policy options` when it
holds of `tour`. -/
theorem step {tour : Tour} (h : tour.IsTruthful options document) :
    (tour.step policy options).IsTruthful options document := by
  cases h with
  | ended describes => exact .ended describes
  -- a fault of the cursor is told here, and every other one in `leave`, `visit` or `enter`
  | @among cursor account frame outer hdocument hroom hvisited =>
    cases hnext : cursor.nextTag with
    | error fault =>
      rw [step_of_error hnext]
      subst hdocument
      exact of_failed (Cursor.describes_of_nextTag hnext)
    | ok tag =>
      cases hkind : cursor.kindOf tag with
      | closing =>
        rw [step_of_closing hnext hkind]
        exact leave hdocument (Nat.lt_of_succ_lt hroom) hvisited
      | markup =>
        rw [step_of_markup hnext hkind]
        exact .among hdocument hroom hvisited
      | element =>
        rw [step_of_element hnext hkind]
        exact enter hdocument hnext (by rw [hkind]; nofun) hroom hvisited

/-- **What a tour comes to is told truthfully**, by induction on the steps, each of which `step` is
about. -/
theorem run {tour : Tour} (h : tour.IsTruthful options document) :
    (Tour.ended (tour.run policy options)).IsTruthful options document := by
  induction tour using Tour.run.induct policy options with
  | case1 finish => rwa [run_ended]
  | case2 cursor account frame outer ih =>
    have hnext := ih h.step
    rwa [run_step] at hnext

/-- Behind a prolog, a tour begins with the truth: the next tag begins at the cursor. -/
theorem start (hresult : cursor.skipProlog.2.result = .ok ()) :
    (Tour.start policy options cursor.skipProlog.1).IsTruthful options cursor.document := by
  have hdocument := Cursor.document_skipProlog cursor
  unfold Tour.start
  split
  · exact of_ok
  · rename_i hmore
    obtain ⟨tag, hnext, hplace, -⟩ :=
      Cursor.exists_nextTag_skipProlog hresult (Bool.eq_false_iff.mpr hmore)
    rw [hnext]
    split
    · rename_i hfull
      exact of_failed (.depthExceeded_root rfl hfull)
    · rename_i hroom
      dsimp only
      split
      · rename_i hkind
        obtain ⟨hopens, -⟩ := Cursor.document_of_nextTag hnext
        have hcloses := TagKind.eq_slash_of_closing hkind
        -- the prolog has moved the cursor to the `<` that the fault names
        rw [Cursor.byteAt?] at hcloses
        rw [hdocument, ← hplace] at hopens hcloses
        rw [← hplace]
        exact of_failed (.unexpectedClosingTag hopens hcloses rfl)
      · rename_i hkind
        refine enter hdocument hnext hkind (Nat.pos_of_ne_zero hroom) fun entered hentered => ?_
        exact absurd hentered List.not_mem_nil

end IsTruthful

end Tour

/-- The tour of a whole document is truthful, also when its prolog is broken. -/
theorem Policy.isTruthful_tour (policy : Policy) (options : Options) (cursor : Cursor) :
    (Tour.ended (policy.tour options cursor)).IsTruthful options cursor.document := by
  unfold Policy.tour
  split
  · rename_i fault hfault
    rw [← Cursor.document_skipProlog cursor]
    exact .of_failed (Cursor.describes_of_nextTag (Cursor.nextTag_of_skipProlog_error hfault))
  · rename_i hresult
    exact (Tour.IsTruthful.start hresult).run

/-- **Every fault describes the document.** On every document, with any options and for every
policy, what the fault says that a parse ends with is true of the document, of the visits that were
made and of the place where reading ended: `fault.Describes options document ended.sights
ended.reader.position`. The parse ends at all with any `fuel` above `document.length`. -/
theorem describes_of_parse (policy : Policy) (options : Options) {document : Bytes} {fuel : Nat}
    (hfuel : document.length < fuel) :
    ∃ ended result, policy.parse fuel (.ofDocument document options) = some (ended, result) ∧
      ∀ fault, result = .error fault →
        fault.Describes options document ended.sights ended.reader.position := by
  obtain ⟨ended, result, hrun, -, htour⟩ := parse_eq_tour policy options hfuel
  have htruthful := policy.isTruthful_tour options (.ofDocument document)
  rw [htour] at htruthful
  cases htruthful with
  | ended describes => exact ⟨ended, result, hrun, describes⟩

/-- The document `<a><b>x</a>`, in which `b` is not closed. -/
def documentUnclosed : Bytes :=
  [0x3C, 0x61, 0x3E, 0x3C, 0x62, 0x3E, 0x78, 0x3C, 0x2F, 0x61, 0x3E]

/-- Its second node is `b`, the closing tag of which is missing. -/
theorem describes_of_parse_documentUnclosed :
    documentUnclosed.length < 12 ∧
      ∃ ended, readSecond.parse 12 (.ofDocument documentUnclosed .lenient) =
          some (ended, .error (.closingTagNotFound (Utf8.lossy [0x62]))) ∧
        (Fault.closingTagNotFound (Utf8.lossy [0x62])).Describes .lenient documentUnclosed
          ended.sights ended.reader.position := by
  have hfuel : documentUnclosed.length < 12 := by decide
  obtain ⟨ended, result, hrun, hdescribes⟩ := describes_of_parse readSecond .lenient hfuel
  obtain ⟨same, result', hrun', -, htour⟩ := parse_eq_tour readSecond .lenient hfuel
  obtain ⟨rfl, rfl⟩ := Prod.mk.inj (Option.some.inj (hrun'.symm.trans hrun))
  have hresult : (readSecond.tour .lenient (.ofDocument documentUnclosed)).result =
      .error (.closingTagNotFound (Utf8.lossy [0x62])) := by with_unfolding_all rfl
  rw [htour] at hresult
  obtain rfl : result' = .error (.closingTagNotFound (Utf8.lossy [0x62])) := hresult
  exact ⟨hfuel, same, hrun, hdescribes _ rfl⟩

end TagWalk
