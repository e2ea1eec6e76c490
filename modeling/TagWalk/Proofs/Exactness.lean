import TagWalk.Proofs.Agreement
import TagWalk.Proofs.Scopes

/-! # Exact traversals

On a written tree, a policy's traversal is the policy's walk over the tree: the same nodes at the same
depths, the same bodies, the same answer, and the same place of the cursor. Whichever way the policy
leaves a node, what comes next is where the tree has it, since the ways to get there agree: past the
closing tag at the end of a descent, past the one that a search finds, and past the tag itself where
the element is empty.

* **`passed_childStep`** — one element among the children of a node.
* **`agrees_scanChildren`** — the children of a node.
* **`keepsTo_perform`** — a policy's work on a node.
* **`parse_rendered`** — a whole document. -/

namespace TagWalk

/-! ## Written elements -/

namespace Item

variable {document rest name : Bytes} {attributes : AttributeList} {items : List Item} {offset : Nat}

/-- Behind the opening tag of a written element stand its items and its closing tag:
`renderAll items ++ (closing name ++ rest)`. -/
theorem drop_of_element
    (h : document.drop offset = (element name attributes items).render ++ rest) :
    document.drop (offset + (opening name attributes).length + 1) =
      renderAll items ++ (closing name ++ rest) := by
  rw [Nat.add_assoc, ← List.drop_drop, h, render]
  have hfront : opening name attributes ++ Byte.greaterThan :: (renderAll items ++ closing name) ++
      rest = (opening name attributes ++ [Byte.greaterThan]) ++
        (renderAll items ++ (closing name ++ rest)) := by simp
  rw [hfront]
  exact List.drop_left' (by simp)

/-- An element has a node, wherever it stands. -/
theorem exists_node {item : Item} (helement : item.isElement = true) (offset : Nat) :
    ∃ node, item.node? offset = some node := by
  cases item with
  | text bytes => cases helement
  | markup mark content => cases helement
  | empty name attributes => exact ⟨_, rfl⟩
  | element name attributes items => exact ⟨_, rfl⟩

/-- A written element is not empty. -/
theorem length_render_pos {item : Item} {node : Node} (hnode : item.node? offset = some node) :
    0 < item.render.length := by
  cases item with
  | text bytes => cases hnode
  | markup mark content => cases hnode
  | empty name attributes => simp [render, opening]
  | element name attributes items => simp [render, opening]

/-- An empty element ends with its tag, at `offset + (empty name attributes).render.length`. -/
theorem bodyStart_of_empty {node : Node} (hnode : (empty name attributes).node? offset = some node) :
    node.bodyStart = offset + (empty name attributes).render.length := by
  rw [← Option.some.inj hnode, render, List.length_append]
  rfl

/-- A written element ends with its closing tag: its length is that of opening tag, items and
closing tag. -/
theorem length_render_element (offset : Nat) (name : Bytes) (attributes : AttributeList)
    (items : List Item) :
    offset + (element name attributes items).render.length =
      offset + (opening name attributes).length + 1 + (renderAll items).length +
        (closing name).length := by
  rw [render]
  simp only [List.length_append, List.length_cons]
  omega

end Item

/-! ## One element among the children -/

/-- **What an element among the children comes to**, by how the walk goes on behind it: `.more`
where that is `.through`, and `.finished` where it has stopped or failed. A misled walk says nothing
here. -/
inductive Passed (parent : Node) (before : Reader) (account : Account) (stop : Nat)
    (after : Walking) : Ending → Progress → Prop
  /-- There may be more, behind the element. -/
  | through (moved : Reader.Moved parent.bodyStart before after.reader)
      (account_eq : after.account = account) (position_eq : after.reader.position = stop)
      (unmarked : after.reader.lastClosed ≠ some parent.bodyStart) :
      Passed parent before account stop after .through .more
  /-- The element was the last one to be looked at. -/
  | stopped (moved : Reader.Moved parent.bodyStart before after.reader)
      (account_eq : after.account = account) (position_le : after.reader.position ≤ stop)
      (unmarked : after.reader.lastClosed ≠ some parent.bodyStart) :
      Passed parent before account stop after (.stopped after.reader.position) (.finished (.ok ()))
  /-- The element failed, or what was left of it. -/
  | failed (fault : Fault) (account_eq : after.account = account) :
      Passed parent before account stop after (.failed fault after.reader.position)
        (.finished (.error fault))

section Children

variable {act : Act Unit (List Node) Empty} {policy : Policy} {bound : Nat} {parent node : Node}

/-- **Skipping what is left of an element** agrees with `item.seek`, the search for its closing tag,
unless that is misled. -/
theorem passed_skip {before : Reader} {visited : Walking} {account : Account} {item : Item}
    {offset : Nat} {rest : Bytes} (hitem : item.WellFormed) (hnode : item.node? offset = some node)
    (hdrop : visited.reader.document.drop offset = item.render ++ rest)
    (hmoved : Reader.Moved node.bodyStart before visited.reader) (haccount : visited.account = account)
    (hposition : visited.reader.position ≤ offset + item.render.length)
    (hunclosed : visited.reader.isClosed node = false) (hlt : parent.bodyStart < node.bodyStart)
    (hunmarked : before.lastClosed ≠ some parent.bodyStart)
    (hclear : item.seek visited.reader.position ≠ .misled) :
    ∃ after progress, visited.afterVisit node .proceed = (after, progress) ∧
      Passed parent before account (offset + item.render.length) after
        (item.seek visited.reader.position) progress := by
  cases item with
  | text bytes => cases hnode
  | markup mark content => cases hnode
  | empty name attributes =>
    obtain rfl := Option.some.inj hnode
    -- an empty element is closed from the start
    cases hunclosed
  | element name attributes items =>
    obtain ⟨hname, -, hitems⟩ := hitem
    have hnode := Option.some.inj hnode
    have hbody := Item.drop_of_element hdrop
    rw [Item.length_render_element] at hposition ⊢
    rcases Reader.readBody_cases hnode.symm hname hitems hbody hposition with
      hmisled | ⟨fault, hseek, hstay, hread⟩ | ⟨hseek, hread, hmove, hend, hmark⟩
    · exact absurd hmisled hclear
    · -- the closing tag is not looked for, and the reader stays where it is
      have hreader : (visited.skip node).1.reader = visited.reader := by
        rw [Session.reader_skip, hstay]
      refine ⟨_, _, Session.afterVisit_of_unread hunclosed hread, ?_⟩
      rw [hseek, ← hreader]
      exact .failed fault ((Session.account_skip _ _).trans haccount)
    · -- the closing tag is found, and the reader ends behind it
      have hstart : node.bodyStart = offset + (Item.opening name attributes).length + 1 := by
        rw [← hnode]
      have hskipped : Reader.Moved node.bodyStart before (visited.skip node).1.reader := by
        rw [Session.reader_skip]
        exact hmoved.trans (hstart ▸ hmove)
      refine ⟨_, _, Session.afterVisit_of_read hunclosed hread, ?_⟩
      rw [hseek]
      refine .through (hskipped.of_le (Nat.le_of_lt hlt))
        ((Session.account_skip _ _).trans haccount) ?_ (hskipped.lastClosed_ne hlt hunmarked)
      rw [Session.reader_skip]
      exact hend

/-- **An element among the children** comes to what the walk comes to,
`item.settle offset signal walk.2`, unless that is misled there. -/
theorem passed_childStep {session visited : Walking} {item : Item} {tag : Tag}
    {offset : Nat} {rest : Bytes} {signal : Signal} {walk : Account × Ending}
    {answer : Except Fault Signal}
    (hitem : item.WellFormed) (hnode : item.node? offset = some node)
    (hdrop : session.reader.document.drop offset = item.render ++ rest)
    (hlt : parent.bodyStart < node.bodyStart)
    (hunmarked : session.reader.lastClosed ≠ some parent.bodyStart)
    (hnext : session.reader.cursor.nextTag = .ok tag)
    (hkind : session.reader.cursor.kindOf tag = .element)
    (hvisit : session.visitTag act () tag = some (visited, answer.map (node, ·)))
    (hagrees : Agrees node signal session.reader (offset + item.render.length) visited walk answer)
    (hclear : item.settle offset signal walk.2 ≠ .misled) :
    ∃ after progress, session.childStep act parent () = some (after, progress) ∧
      Passed parent session.reader walk.1 (offset + item.render.length) after
        (item.settle offset signal walk.2) progress := by
  cases hagrees with
  | through moved account_eq position_eq closed =>
    -- the visit has passed the element, so nothing of it is left to skip
    have hunmarked' := moved.lastClosed_ne hlt hunmarked
    have hmoved := moved.of_le (Nat.le_of_lt hlt)
    cases signal with
    | proceed =>
      refine ⟨visited, .more, ?_, .through hmoved account_eq position_eq hunmarked'⟩
      rw [Session.childStep_of_visited hnext hkind hvisit, Session.afterVisit_of_isClosed closed]
    | stop =>
      refine ⟨_, _, Session.childStep_of_visited hnext hkind hvisit, ?_⟩
      show Passed parent session.reader _ _ visited (.stopped (offset + item.render.length)) _
      rw [← position_eq]
      exact .stopped hmoved account_eq (Nat.le_refl _) hunmarked'
  | stopped moved account_eq position_le unclosed =>
    cases signal with
    | proceed =>
      -- the search is made in the document in which the visit began
      have hdrop' : visited.reader.document.drop offset = item.render ++ rest := by
        rw [moved.document_eq]
        exact hdrop
      obtain ⟨after, progress, hafter, hpassed⟩ := passed_skip hitem hnode hdrop' moved account_eq
        position_le unclosed hlt hunmarked hclear
      refine ⟨after, progress, ?_, hpassed⟩
      rw [Session.childStep_of_visited hnext hkind hvisit, hafter]
    | stop =>
      refine ⟨_, _, Session.childStep_of_visited hnext hkind hvisit, ?_⟩
      exact .stopped (moved.of_le (Nat.le_of_lt hlt)) account_eq position_le
        (moved.lastClosed_ne hlt hunmarked)
  | failed fault account_eq =>
    refine ⟨_, _, Session.childStep_of_failed hnext hkind hvisit, ?_⟩
    exact .failed fault account_eq
  | misled => exact absurd rfl hclear

/-! ## All children -/

/-- **A session among the children of a node**: a text `gap` is left to pass, then come the items,
which are written from `offset` on, and the closing tag of `name` with `rest` behind it. -/
structure Among (parent : Node) (name : Bytes) (items : List Item) (gap rest : Bytes) (offset : Nat)
    (session : Walking) : Prop where
  /-- The text has no `<`. -/
  not_mem_gap : Byte.lessThan ∉ gap
  /-- The items and the closing tag are ahead. -/
  remaining_eq :
    session.reader.remaining = gap ++ (Item.renderAll items ++ (Item.closing name ++ rest))
  /-- The text ends where the items begin. -/
  offset_eq : offset = session.reader.position + gap.length
  /-- The reader is in the node's body. -/
  bodyStart_le : parent.bodyStart ≤ session.reader.position
  /-- The node is not marked yet. -/
  unmarked : session.reader.lastClosed ≠ some parent.bodyStart
  /-- No mark lies ahead. -/
  markBehind : session.reader.MarkBehind

namespace Among

variable {name gap rest : Bytes} {item : Item} {items : List Item} {offset : Nat}
  {session after : Walking}

/-- A text among the items is passed together with the next tag: it is added to the `gap`. -/
theorem text {bytes : Bytes} (h : Among parent name (.text bytes :: items) gap rest offset session)
    (hbytes : Byte.lessThan ∉ bytes) :
    Among parent name items (gap ++ bytes) rest (offset + (Item.text bytes).render.length) session where
  not_mem_gap := List.not_mem_append h.not_mem_gap hbytes
  remaining_eq := by
    rw [h.remaining_eq, Item.renderAll, Item.render, List.append_assoc, List.append_assoc]
  offset_eq := by
    rw [h.offset_eq, Item.render, List.length_append, Nat.add_assoc]
  bodyStart_le := h.bodyStart_le
  unmarked := h.unmarked
  markBehind := h.markBehind

/-- The first item is ahead, and what is behind it. -/
theorem remaining_cons (h : Among parent name (item :: items) gap rest offset session) :
    session.reader.remaining =
      gap ++ (item.render ++ (Item.renderAll items ++ (Item.closing name ++ rest))) := by
  rw [h.remaining_eq, Item.renderAll, List.append_assoc]

/-- The first item stands at the offset: `session.reader.document.drop offset` begins with
`item.render`. -/
theorem drop_eq (h : Among parent name (item :: items) gap rest offset session) :
    session.reader.document.drop offset =
      item.render ++ (Item.renderAll items ++ (Item.closing name ++ rest)) := by
  rw [h.offset_eq]
  exact Cursor.drop_document_of_remaining h.remaining_cons

/-- **Behind the first item**, the session is among the others, without a gap:
`offset + item.render.length` is where they begin. -/
theorem tail (h : Among parent name (item :: items) gap rest offset session)
    (hmoved : Reader.Moved parent.bodyStart session.reader after.reader)
    (hposition : after.reader.position = offset + item.render.length)
    (hunmarked : after.reader.lastClosed ≠ some parent.bodyStart) :
    Among parent name items [] rest (offset + item.render.length) after where
  not_mem_gap := List.not_mem_nil
  remaining_eq := by
    -- what is left is the old rest without the text and the item
    have hfront : session.reader.remaining =
        (gap ++ item.render) ++ (Item.renderAll items ++ (Item.closing name ++ rest)) := by
      rw [h.remaining_cons, List.append_assoc]
    have hdrop := Cursor.drop_document_of_remaining hfront
    show after.reader.document.drop after.reader.position = _
    rw [hmoved.document_eq, hposition, h.offset_eq, Nat.add_assoc, ← List.length_append]
    exact hdrop
  offset_eq := hposition.symm
  bodyStart_le := Nat.le_trans h.bodyStart_le hmoved.position_le
  unmarked := hunmarked
  markBehind := hmoved.markBehind h.markBehind

/-- Behind a move to a later place, less is left. -/
theorem remainingLength_lt (hmoved : Reader.Moved parent.bodyStart session.reader after.reader)
    (hlt : session.reader.position < after.reader.position) :
    after.remainingLength < session.remainingLength := by
  have hend : after.reader.position ≤ after.reader.document.length := after.reader.cursor.position_le
  show after.reader.document.length - after.reader.position <
    session.reader.document.length - session.reader.position
  rw [hmoved.document_eq] at hend ⊢
  omega

end Among

/-- The closing tag behind the last item ends the children, and closes the node. -/
theorem agrees_scanChildren_nil (act : Act Unit (List Node) Empty) (fuel : Nat)
    {name gap rest : Bytes} {offset : Nat} {session : Walking}
    (hname : Byte.greaterThan ∉ name) (h : Among parent name [] gap rest offset session) :
    ∃ ended, Session.scanChildren act parent () (fuel + 1) session = some (ended, .ok ()) ∧
      Agrees parent () session.reader (offset + (Item.closing name).length) ended
        (session.account, .through) (.ok ()) := by
  have hahead : session.reader.cursor.remaining =
      gap ++ Byte.lessThan :: (Byte.slash :: name ++ Byte.greaterThan :: rest) := by
    apply Eq.trans h.remaining_eq
    simp [Item.renderAll, Item.closing]
  have hbody : Byte.greaterThan ∉ Byte.slash :: name :=
    List.not_mem_of_not_mem_cons (Item.greaterThan_not_mem_closing hname)
  -- a slash behind the `<` makes the next tag a closing tag
  have hnext := Cursor.nextTag_of_remaining hahead h.not_mem_gap hbody
  have hkind : session.reader.cursor.kindOf
      (session.reader.cursor.tagBehind gap (Byte.slash :: name)) = .closing :=
    Cursor.kindOf_tagBehind hahead rfl
  obtain ⟨-, hposition⟩ := Cursor.remaining_passTag_tagBehind hahead
  have hmoved := Reader.Moved.passTag parent.bodyStart hnext
  refine ⟨_, Session.scanChildren_of_finished (Session.childStep_of_closing hnext hkind), ?_⟩
  refine .through (hmoved.markClosed (Nat.le_trans h.bodyStart_le hmoved.position_le))
    (Session.account_close _ _ _) ?_ (Reader.isClosed_of_eq rfl)
  apply Eq.trans hposition
  rw [h.offset_eq]
  simp only [Item.closing, List.length_cons, List.length_append, List.length_nil]
  show session.reader.position + _ + _ + 2 = _
  omega

/-- A declaration among the items is passed, and neither account nor mark changes. -/
theorem childStep_of_among_markup (act : Act Unit (List Node) Empty)
    {name gap rest content : Bytes} {mark : UInt8} {items : List Item} {offset : Nat}
    {session : Walking}
    (hitem : (Item.markup mark content).WellFormed)
    (h : Among parent name (.markup mark content :: items) gap rest offset session) :
    ∃ after, session.childStep act parent () = some (after, .more) ∧
      Reader.Moved parent.bodyStart session.reader after.reader ∧ after.account = session.account ∧
      after.reader.position = offset + (Item.markup mark content).render.length ∧
      after.reader.lastClosed = session.reader.lastClosed := by
  obtain ⟨tag, hnext, hkind, -, hposition⟩ :=
    Item.nextTag_of_markup hitem h.not_mem_gap h.remaining_cons
  have hreader : (session.skipMarkup tag).reader = session.reader.passTag tag :=
    Session.reader_log _ _
  refine ⟨_, Session.childStep_of_markup hnext hkind, ?_, Session.account_skipMarkup _ _, ?_, ?_⟩
  · rw [hreader]
    exact .passTag parent.bodyStart hnext
  · rw [hreader, h.offset_eq]
    exact hposition
  · rw [hreader]
    rfl

/-- **The children of a node agree with the walk over its items**, by induction on the items: what
comes of `scanChildren` `Agrees` with `Item.walk`. A text is passed together with the tag behind it,
so the induction lets a text `gap` go before the items. -/
theorem agrees_scanChildren (hact : act.KeepsTo policy bound) {name gap rest : Bytes}
    {items : List Item} (hitems : Item.WellFormedAll items) (hname : Byte.greaterThan ∉ name)
    (hopen : parent.selfClosing = false) {offset fuel : Nat} {session : Walking}
    (hbound : session.remainingLength ≤ bound) (hfuel : session.remainingLength < fuel)
    (h : Among parent name items gap rest offset session) :
    ∃ ended result, Session.scanChildren act parent () fuel session = some (ended, result) ∧
      Agrees parent () session.reader
        (offset + (Item.renderAll items).length + (Item.closing name).length) ended
        (Item.walk policy session.reader.options.maxDepth items session.reader.depth offset
          session.account) result := by
  induction items generalizing gap offset session fuel with
  | nil =>
    obtain ⟨fuel, rfl⟩ := Nat.exists_eq_succ_of_ne_zero (Nat.ne_zero_of_lt hfuel)
    obtain ⟨ended, hrun, hagrees⟩ := agrees_scanChildren_nil act fuel hname h
    refine ⟨ended, .ok (), hrun, ?_⟩
    rw [Item.walk]
    exact hagrees
  | cons item items ih =>
    obtain ⟨hitem, hitems⟩ := hitems
    obtain ⟨fuel, rfl⟩ := Nat.exists_eq_succ_of_ne_zero (Nat.ne_zero_of_lt hfuel)
    rw [Item.renderAll, List.length_append, ← Nat.add_assoc]
    -- behind an item that was passed, the others agree
    have hmore : ∀ after : Walking, session.childStep act parent () = some (after, .more) →
        Reader.Moved parent.bodyStart session.reader after.reader →
        after.reader.position = offset + item.render.length →
        session.reader.position < after.reader.position →
        after.reader.lastClosed ≠ some parent.bodyStart →
        ∃ ended result, Session.scanChildren act parent () (fuel + 1) session =
            some (ended, result) ∧
          Agrees parent () session.reader
            (offset + item.render.length + (Item.renderAll items).length +
              (Item.closing name).length) ended
            (Item.walk policy session.reader.options.maxDepth items session.reader.depth
              (offset + item.render.length) after.account) result := by
      intro after hstep hmoved hposition hlt hunmarked
      have hless := Among.remainingLength_lt hmoved hlt
      obtain ⟨ended, result, hrun, hagrees⟩ := ih hitems
        (Nat.le_trans (Nat.le_of_lt hless) hbound)
        (Nat.lt_of_lt_of_le hless (Nat.le_of_lt_succ hfuel)) (h.tail hmoved hposition hunmarked)
      rw [hmoved.options_eq, hmoved.depth_eq] at hagrees
      refine ⟨ended, result, ?_, hagrees.of_moved hmoved rfl rfl⟩
      rw [Session.scanChildren_of_more hstep]
      exact hrun
    -- what is no element is passed without a visit
    cases hnode : item.node? offset with
    | none =>
      rw [Item.walk_cons_of_node?_eq_none hnode]
      cases item with
      | text bytes => exact ih hitems hbound hfuel (h.text hitem)
      | markup mark content =>
        obtain ⟨after, hstep, hmoved, haccount, hposition, hmark⟩ :=
          childStep_of_among_markup act hitem h
        rw [← haccount]
        refine hmore after hstep hmoved hposition ?_ (hmark ▸ h.unmarked)
        rw [hposition, h.offset_eq, Item.render, List.length_cons]
        omega
      | empty name attributes => cases hnode
      | element name attributes items => cases hnode
    | some node =>
      obtain ⟨tag, visited, answer, hnext, hkind, hvisit, hagrees⟩ := agrees_visitTag hact hitem hnode
        hbound h.not_mem_gap h.remaining_cons h.offset_eq h.markBehind
      have hsignal : item.signal policy offset session.account.seen =
          (policy (node :: session.state)).signal := by
        rw [Item.signal, hnode]
        rfl
      have hbehind := Item.lt_bodyStart hnode
      have hahead := h.offset_eq
      have hstart := h.bodyStart_le
      by_cases hmisled : item.settle offset (item.signal policy offset session.account.seen)
          (item.visit policy session.reader.options.maxDepth session.reader.depth offset
            session.account).2 = .misled
      · -- the children still end, and nothing that was shown is taken back
        obtain ⟨ended, result, hrun, -⟩ :=
          Session.ends_scanChildren hact.returnsBelow hbound parent () hfuel
        have hfollows := Session.follows_scanChildren_of_visitTag Course.closed_true hact.follows hnext
          hkind hvisit hrun
        refine ⟨ended, result, hrun, ?_⟩
        rw [Item.walk_cons_of_ne hmisled (by simp)]
        exact .misled _ (hagrees.sights_isPrefix.trans hfollows.sights_isPrefix)
          (hagrees.bodies_isPrefix.trans hfollows.bodies_isPrefix)
      · obtain ⟨after, progress, hstep, hpassed⟩ := passed_childStep hitem hnode h.drop_eq
          (show parent.bodyStart < node.bodyStart by omega) h.unmarked hnext hkind hvisit hagrees
          (hsignal ▸ hmisled)
        rw [← hsignal] at hpassed
        -- the ending is now known by name, so that its cases are those of the step
        generalize hsettle : item.settle offset (item.signal policy offset session.account.seen)
          (item.visit policy session.reader.options.maxDepth session.reader.depth offset
            session.account).2 = ending at hpassed
        cases hpassed with
        | through moved account_eq position_eq unmarked =>
          rw [Item.walk_cons_of_through hsettle, ← account_eq]
          refine hmore after hstep moved position_eq ?_ unmarked
          have hlength := Item.length_render_pos hnode
          omega
        | stopped moved account_eq position_le unmarked =>
          refine ⟨after, .ok (), Session.scanChildren_of_finished hstep, ?_⟩
          rw [Item.walk_cons_of_ne hsettle (by simp)]
          refine .stopped moved account_eq ?_ (Reader.isClosed_of_ne hopen unmarked)
          omega
        | failed fault account_eq =>
          refine ⟨after, .error fault, Session.scanChildren_of_finished hstep, ?_⟩
          rw [Item.walk_cons_of_ne hsettle (by simp)]
          exact .failed fault account_eq

end Children

/-! ## One visit -/

namespace Handed

variable {policy : Policy} {item : Item} {node : Node} {offset : Nat} {account : Account}
  {session : Walking}

/-- The session in which the policy has seen the node: its state is `node :: account.seen`. -/
def met (node : Node) (account : Account) (session : Walking) : Walking :=
  { session with state := node :: account.seen }

@[simp] theorem reader_met (node : Node) (account : Account) (session : Walking) :
    (met node account session).reader = session.reader := rfl

/-- Once the policy has seen the node, the visit is in the account. -/
theorem account_met (h : Handed item node offset account session) :
    (met node account session).account = account.meet session.reader.depth node := by
  have hsights : (met node account session).sights = _ := h.sights_eq
  have hbodies : (met node account session).bodies = _ := h.bodies_eq
  rw [Session.account, hsights, hbodies]
  rfl

/-- The node of an element is not closed when it is handed over: its mark, if there is one, is that
of an earlier node. -/
theorem isClosed_eq (h : Handed item node offset account session) (hopen : node.selfClosing = false) :
    session.reader.isClosed node = false := by
  apply Reader.isClosed_of_ne hopen
  intro heq
  exact absurd (h.mark_lt _ heq) (Nat.lt_irrefl _)

/-- **A node that is let go** is left where it is, as `.stopped node.bodyStart` says for an
element. -/
theorem agrees_ignore (h : Handed item node offset account session)
    (huse : (policy (node :: account.seen)).use = .ignore) (signal : Signal) :
    Agrees node signal session.reader (offset + item.render.length) (met node account session)
      (item.visit policy session.reader.options.maxDepth session.reader.depth offset account)
      (.ok signal) := by
  have hmoved := Reader.Moved.refl node.bodyStart session.reader
  have hnode := h.node_eq
  have hposition := h.position_eq
  cases item with
  | text bytes => cases hnode
  | markup mark content => cases hnode
  | empty name attributes =>
    rw [Item.visit_empty_of_ne hnode (by simp [huse]), ← Item.bodyStart_of_empty hnode]
    refine .through hmoved h.account_met hposition ?_
    rw [← Option.some.inj hnode]
    rfl
  | element name attributes items =>
    -- the node has a closing tag ahead, and the mark is an older one
    rw [Item.visit_element_of_ignore hnode huse, ← hposition, Item.length_render_element]
    have hclosed := h.isClosed_eq (by rw [← Option.some.inj hnode])
    obtain rfl := Option.some.inj hnode
    refine .stopped hmoved h.account_met ?_ hclosed
    rw [reader_met, hposition]
    dsimp only
    omega

/-- **A node whose body is read** agrees with the search for its closing tag, by the cases of
`Reader.readBody_cases`. -/
theorem agrees_readBody (h : Handed item node offset account session)
    (huse : (policy (node :: account.seen)).use = .readBody) (signal : Signal) :
    Agrees node signal session.reader (offset + item.render.length)
      ((met node account session).readBody node).1
      (item.visit policy session.reader.options.maxDepth session.reader.depth offset account)
      (((met node account session).readBody node).2.map fun _ => signal) := by
  have hmoved := Reader.Moved.refl node.bodyStart session.reader
  have hnode := h.node_eq
  have hposition := h.position_eq
  have hresult : ((met node account session).readBody node).2 =
      (session.reader.readBody node).2.result := rfl
  have hreader : ((met node account session).readBody node).1.reader =
      (session.reader.readBody node).1 := Session.reader_readBody _ _
  cases item with
  | text bytes => cases hnode
  | markup mark content => cases hnode
  | empty name attributes =>
    -- an empty element has no body to look for
    rw [Item.visit_empty_of_readBody hnode huse]
    have hempty : session.reader.readBody node = (session.reader.markClosed node, .quiet (.ok [])) := by
      rw [Reader.readBody, ← Option.some.inj hnode]
      rfl
    have hread : ((met node account session).reader.readBody node).2.result = .ok [] := by
      rw [reader_met, hempty]
      rfl
    rw [hresult, hempty]
    refine .through ?_ ?_ ?_ ?_
    · rw [hreader, hempty]
      exact hmoved.markClosed (Nat.le_of_eq hposition.symm)
    · rw [Session.account_readBody_of_ok hread, h.account_met]
    · rw [hreader, hempty, ← Item.bodyStart_of_empty hnode]
      exact hposition
    · rw [hreader, hempty]
      exact Reader.isClosed_of_eq rfl
  | element name attributes items =>
    obtain ⟨hname, -, hitems⟩ := h.wellFormed
    obtain ⟨rest, hdrop⟩ := h.document_eq
    have hbody := Item.drop_of_element hdrop
    have hstart : node.bodyStart = offset + (Item.opening name attributes).length + 1 := by
      rw [← Option.some.inj hnode]
    -- the closing tag of an element lies ahead of the reader
    have hle : session.reader.position ≤ offset + (Item.opening name attributes).length + 1 +
        (Item.renderAll items).length + (Item.closing name).length := by
      omega
    rw [Item.length_render_element]
    rcases Reader.readBody_cases (Option.some.inj hnode).symm hname hitems hbody hle with
      hseek | ⟨fault, hseek, hstay, hread⟩ | ⟨hseek, hread, hmove, hend, hmark⟩
    · rw [hposition] at hseek
      rw [Item.visit_element_of_unread hnode huse hseek (by simp)]
      -- whatever is read then, the visit has been shown
      have hfollows : (met node account session).Follows (fun _ _ _ => True)
          ((met node account session).readBody node).1 := Session.follows_readBody trivial
      have hmet := h.account_met
      refine .misled _ ?_ ?_
      · rw [← hmet]
        exact hfollows.sights_isPrefix
      · rw [← hmet]
        exact hfollows.bodies_isPrefix
    · rw [hposition] at hseek
      rw [Item.visit_element_of_unread hnode huse hseek (by simp), hresult, hread]
      have hread' : ((met node account session).reader.readBody node).2.result = .error fault := hread
      refine .failed_at ?_ ?_
      · rw [Session.account_readBody_of_error hread', h.account_met]
      · rw [hreader, hstay]
        exact hposition
    · rw [hposition] at hseek
      rw [Item.visit_element_of_read hnode huse hseek, hresult, hread]
      refine .through ?_ ?_ ?_ ?_
      · rw [hreader, hstart]
        exact hmove
      · have hread' : ((met node account session).reader.readBody node).2.result =
            .ok (Item.renderAll items) := hread
        rw [Session.account_readBody_of_ok hread', h.account_met]
      · rw [hreader]
        exact hend
      · rw [hreader]
        exact Reader.isClosed_of_eq (hmark.trans (congrArg some hstart.symm))

/-- **A node that is descended into** agrees with the walk over its items. There is room for a scope
on both sides, or on neither. -/
theorem agrees_descend {act : Act Unit (List Node) Empty} {bound fuel : Nat}
    (hact : act.KeepsTo policy bound) (h : Handed item node offset account session)
    (huse : (policy (node :: account.seen)).use = .descend) (signal : Signal)
    (hbound : session.remainingLength ≤ bound) (hfuel : session.remainingLength < fuel) :
    ∃ ended result, (met node account session).descend act fuel node () = some (ended, result) ∧
      Agrees node signal session.reader (offset + item.render.length) ended
        (item.visit policy session.reader.options.maxDepth session.reader.depth offset account)
        (result.map fun _ => signal) := by
  have hnode := h.node_eq
  have hposition := h.position_eq
  have hdescend : ((met node account session).record (.descend node ())).account =
      account.meet session.reader.depth node := (Session.account_record rfl rfl).trans h.account_met
  -- what the work on the children comes to is what the descent comes to
  suffices hchildren : ∃ worked result,
      ((met node account session).record (.descend node ())).children act fuel node () =
          some (worked, result) ∧
        Agrees node () session.reader (offset + item.render.length) worked
          (item.visit policy session.reader.options.maxDepth session.reader.depth offset account)
          result by
    obtain ⟨worked, result, hdone, hagrees⟩ := hchildren
    refine ⟨_, result, Session.descend_of_children hdone, ?_⟩
    exact (hagrees.map fun _ => signal).of_moved (.refl _ _) rfl (Session.account_record rfl rfl)
  cases item with
  | text bytes => cases hnode
  | markup mark content => cases hnode
  | empty name attributes =>
    -- an empty element is marked without a scope
    have hclosing : node.selfClosing = true := by
      rw [← Option.some.inj hnode]
    rw [Item.visit_empty_of_ne hnode (by simp [huse]), ← Item.bodyStart_of_empty hnode]
    refine ⟨_, .ok (), Session.children_of_selfClosing hclosing, .through ?_ hdescend hposition
      (Reader.isClosed_of_eq rfl)⟩
    exact (Reader.Moved.refl _ _).markClosed (Nat.le_of_eq hposition.symm)
  | element name attributes items =>
    obtain ⟨hname, -, hitems⟩ := h.wellFormed
    obtain ⟨rest, hdrop⟩ := h.document_eq
    have hopen : node.selfClosing = false := by
      rw [← Option.some.inj hnode]
    have hstart : node.bodyStart = offset + (Item.opening name attributes).length + 1 := by
      rw [← Option.some.inj hnode]
    rw [Session.children_of_open hopen]
    by_cases hfull : session.reader.options.maxDepth ≤ session.reader.depth
    · rw [Item.visit_element_of_full hnode huse hfull]
      refine ⟨_, _, Session.withScope_of_full hfull, .failed_at ?_ ?_⟩
      · rw [Session.account_log]
        exact hdescend
      · rw [Session.reader_log]
        exact hposition
    · rw [Item.visit_element_of_room hnode huse hfull, Item.length_render_element, ← hstart]
      have hroom : ((met node account session).record (.descend node ())).reader.depth <
          ((met node account session).record (.descend node ())).reader.options.maxDepth :=
        Nat.lt_of_not_le hfull
      have hentered : (((met node account session).record (.descend node ())).enterScope
          (some node)).1.reader = session.reader.pushScope (some node) :=
        Session.reader_enterScope hroom
      have hless : (((met node account session).record (.descend node ())).enterScope
          (some node)).1.remainingLength = session.remainingLength :=
        Session.remainingLength_enterScope _ _
      -- inside, all of the items are ahead
      have hamong : Among node name items [] rest node.bodyStart
          (((met node account session).record (.descend node ())).enterScope (some node)).1 := by
        constructor
        · exact List.not_mem_nil
        · rw [hentered]
          show session.reader.document.drop session.reader.position = _
          rw [hposition, hstart]
          exact Item.drop_of_element hdrop
        · rw [hentered]
          exact hposition.symm
        · rw [hentered]
          exact Nat.le_of_eq hposition.symm
        · rw [hentered]
          intro heq
          exact absurd (h.mark_lt _ heq) (Nat.lt_irrefl _)
        · rw [hentered]
          intro place hplace
          exact Nat.le_of_lt (hposition ▸ h.mark_lt place hplace)
      obtain ⟨worked, result, hdone, hagrees⟩ := agrees_scanChildren hact hitems hname.not_mem.2.2.1
        hopen (Nat.le_trans (Nat.le_of_eq hless) hbound) (Nat.lt_of_le_of_lt (Nat.le_of_eq hless) hfuel)
        hamong
      rw [Session.account_enterScope, hdescend, hentered] at hagrees
      exact ⟨_, result, Session.withScope_of_room hroom hdone, hagrees.leaveScope⟩

end Handed

/-- A policy never asks for bytes again: its scripts are `IsForward`, so they neither reset the
reader nor have it parse. -/
theorem Policy.isForward_cast (policy : Policy) (visitor : Unit) (node : Node) :
    (policy.cast visitor node).IsForward := by
  intro seen
  cases huse : (policy (node :: seen)).use with
  | ignore => simp [Script.IsForward, huse]
  | readBody => simp [Script.IsForward, huse]
  | descend => simp [Script.IsForward, huse]

/-- **A policy's work keeps to the policy**, by induction on the fuel: `perform policy.cast fuel`
does so while fewer than `fuel - 1` bytes are left, as visits inside of a visit have fewer of
them. -/
theorem keepsTo_perform (policy : Policy) (fuel : Nat) :
    (perform policy.cast fuel).KeepsTo policy (fuel - 1) := by
  induction fuel with
  | zero =>
    exact ⟨returnsBelow_perform policy.isForward_cast 0,
      Course.closed_true.composed.follows_perform policy.cast 0, fun _ below => absurd below (Nat.not_lt_zero _)⟩
  | succ fuel ih =>
    refine ⟨returnsBelow_perform policy.isForward_cast (fuel + 1),
      Course.closed_true.composed.follows_perform policy.cast (fuel + 1), ?_⟩
    intro item node offset account session handed below
    rw [Nat.add_sub_cancel] at below
    have hstate := handed.state_eq
    have hrun : perform policy.cast (fuel + 1) () node session =
        (policy.cast () node).run (perform policy.cast fuel) fuel session := rfl
    -- the visitor sees the node first, and then does one of three things
    cases huse : (policy (node :: account.seen)).use with
    | ignore =>
      refine ⟨_, _, ?_, handed.agrees_ignore huse _⟩
      rw [hrun]
      simp only [Policy.cast, Script.run, hstate, huse, Handed.met]
    | readBody =>
      refine ⟨_, _, ?_, handed.agrees_readBody huse _⟩
      rw [hrun]
      simp only [Policy.cast, Script.run, hstate, huse, Handed.met]
    | descend =>
      obtain ⟨ended, result, hdone, hagrees⟩ := handed.agrees_descend ih huse
        (policy (node :: account.seen)).signal (Nat.le_sub_one_of_lt below) below
      refine ⟨ended, _, ?_, hagrees⟩
      rw [Handed.met] at hdone
      rw [hrun]
      simp only [Policy.cast, Script.run, hstate, huse, hdone]

/-! ## Documents -/

/-- With an element ahead, a cursor is not at the end of the document. -/
theorem Cursor.isEof_of_element {item : Item} {node : Node} {front rest : Bytes} {cursor : Cursor}
    {offset : Nat} (hnode : item.node? offset = some node)
    (hremaining : cursor.remaining = front ++ (item.render ++ rest)) : cursor.isEof = false := by
  rw [Bool.eq_false_iff]
  intro heof
  have hlength := congrArg List.length (hremaining.symm.trans (cursor.isEof_iff.mp heof))
  have hpos := Item.length_render_pos hnode
  simp only [List.length_append, List.length_nil] at hlength
  omega

/-- **A written prolog is skipped** up to the root element, by induction on its items. Texts between
them join the `gap` in front of the next tag. -/
theorem Cursor.skipProlog_of_items {root : Item} {node : Node} {rest gap : Bytes}
    {prolog : List Item} {cursor : Cursor} {offset : Nat} (hroot : root.WellFormed)
    (hnode : root.node? offset = some node) (hprolog : Item.WellFormedAll prolog)
    (hnone : ∀ item ∈ prolog, item.isElement = false) (hgap : Byte.lessThan ∉ gap)
    (hremaining : cursor.remaining = gap ++ (Item.renderAll prolog ++ (root.render ++ rest)))
    (hoffset : offset = cursor.position + gap.length + (Item.renderAll prolog).length) :
    cursor.skipProlog.1.position = offset ∧ cursor.skipProlog.2.result = .ok () := by
  have hmore : cursor.isEof = false := by
    rw [← List.append_assoc] at hremaining
    exact isEof_of_element hnode hremaining
  induction prolog generalizing gap cursor with
  | nil =>
    -- the element is the next tag, and skipping ends in front of it
    obtain ⟨tag, hnext, hkind, hstart, -, -⟩ :=
      Item.nextTag_of_element hroot hnode hgap hremaining hoffset
    obtain ⟨-, hstop, hlength⟩ := nextTag_bounds hnext
    rw [skipProlog_of_tag hmore hnext (by simp [hkind])]
    refine ⟨?_, rfl⟩
    rw [position_setPosition, hstart]
    omega
  | cons item prolog ih =>
    obtain ⟨hitem, hprolog⟩ := hprolog
    have hnone' := fun other hm => hnone other (List.mem_cons_of_mem _ hm)
    rw [Item.renderAll, List.length_append] at hoffset
    rw [Item.renderAll, List.append_assoc] at hremaining
    cases item with
    | text bytes =>
      apply ih hprolog hnone' (List.not_mem_append hgap hitem)
      · rw [hremaining, Item.render, List.append_assoc]
      · rw [hoffset, Item.render, List.length_append]
        omega
      · exact hmore
    | markup mark content =>
      obtain ⟨tag, hnext, hkind, hrest, hposition⟩ := Item.nextTag_of_markup hitem hgap hremaining
      -- a declaration is passed, and the rest of the prolog is ahead
      have hbehind : (cursor.passTag tag).remaining =
          [] ++ (Item.renderAll prolog ++ (root.render ++ rest)) := hrest
      rw [skipProlog_of_markup hmore hnext hkind]
      apply ih hprolog hnone' List.not_mem_nil hbehind
      · rw [hposition, hoffset, List.length_nil]
        omega
      · rw [List.nil_append] at hbehind
        exact isEof_of_element hnode hbehind
    | empty name attributes => cases hnone _ List.mem_cons_self
    | element name attributes items => cases hnone _ List.mem_cons_self

section Root

variable {act : Act Unit (List Node) Empty} {policy : Policy} {bound : Nat}

/-- **The root element agrees with its visit**, in the scope of the document: `Session.visitRoot`
with `root.visit`. -/
theorem agrees_visitRoot (hact : act.KeepsTo policy bound) {root : Item} {node : Node}
    {rest : Bytes} {session : Walking} (hroot : root.WellFormed)
    (hnode : root.node? session.reader.position = some node)
    (hbound : session.remainingLength ≤ bound)
    (hremaining : session.reader.remaining = root.render ++ rest) (hmark : session.reader.MarkBehind) :
    ∃ ended result, session.visitRoot act () = some (ended, result) ∧
      Agrees node () session.reader (session.reader.position + root.render.length) ended
        (root.visit policy session.reader.options.maxDepth session.reader.depth
          session.reader.position session.account) result := by
  have hahead : session.reader.remaining = [] ++ (root.render ++ rest) := hremaining
  obtain ⟨tag, visited, answer, hnext, hkind, hvisit, hagrees⟩ := agrees_visitTag hact hroot hnode
    hbound List.not_mem_nil hahead rfl hmark
  have hnotClosing : session.reader.cursor.kindOf tag ≠ .closing := by
    simp [hkind]
  refine ⟨visited, answer.map fun _ => (), ?_, hagrees.map fun _ => ()⟩
  rw [Session.visitRoot_of_visitTag hnext hnotClosing hvisit]
  cases answer <;> rfl

/-- **The work of a parse agrees with the walk of a parse**: `Session.root` with `Item.parsed`,
behind a prolog of items that are no elements. -/
theorem agrees_root (hact : act.KeepsTo policy bound) (session : Walking) {root : Item}
    {node : Node} {prolog : List Item} {rest : Bytes} {offset : Nat} (hroot : root.WellFormed)
    (hnode : root.node? offset = some node) (hprolog : Item.WellFormedAll prolog)
    (hnone : ∀ item ∈ prolog, item.isElement = false) (hbound : session.remainingLength ≤ bound)
    (hremaining : session.reader.remaining = Item.renderAll prolog ++ (root.render ++ rest))
    (hoffset : offset = session.reader.position + (Item.renderAll prolog).length)
    (hscopes : session.reader.scopes = []) (hmark : session.reader.lastClosed = none)
    (haccount : session.account = .blank) :
    ∃ ended result, session.root act () = some (ended, result) ∧
      Agrees node () session.skipProlog.1.reader (offset + root.render.length) ended
        (Item.parsed policy session.reader.options.maxDepth offset root) result := by
  have hahead : session.reader.cursor.remaining =
      [] ++ (Item.renderAll prolog ++ (root.render ++ rest)) := hremaining
  obtain ⟨hposition, hresult⟩ := Cursor.skipProlog_of_items hroot hnode hprolog hnone
    List.not_mem_nil hahead hoffset
  -- behind the prolog, the root element is ahead
  have hrest : session.reader.cursor.skipProlog.1.remaining = root.render ++ rest := by
    have hdrop := Cursor.drop_document_of_remaining hremaining
    show session.reader.cursor.skipProlog.1.document.drop
      session.reader.cursor.skipProlog.1.position = _
    rw [Cursor.document_skipProlog, hposition, hoffset]
    exact hdrop
  have hmore : session.reader.cursor.skipProlog.1.isEof = false := by
    rw [← List.nil_append (root.render ++ rest)] at hrest
    exact Cursor.isEof_of_element hnode hrest
  have haccount' : session.skipProlog.1.account = .blank := (Session.account_step _ _).trans haccount
  rw [Item.parsed]
  by_cases hfull : session.reader.options.maxDepth = 0
  · rw [if_pos hfull]
    refine ⟨_, _, Session.root_of_full hresult hmore hfull, ?_⟩
    apply Agrees.failed_at
    · rw [Session.account_log]
      exact haccount'
    · rw [Session.reader_log, Session.reader_skipProlog]
      exact hposition
  · rw [if_neg hfull]
    have hentered := Session.reader_enterScope_skipProlog hscopes hfull
    have hbound' : (session.skipProlog.1.enterScope none).1.remainingLength ≤ bound := by
      rw [Session.remainingLength_enterScope]
      exact Nat.le_trans session.remainingLength_skipProlog hbound
    have hplace : (session.skipProlog.1.enterScope none).1.reader.position = offset := by
      rw [hentered]
      exact hposition
    have hremaining' : (session.skipProlog.1.enterScope none).1.reader.remaining =
        root.render ++ rest := by
      rw [hentered]
      exact hrest
    have hunmarked : (session.skipProlog.1.enterScope none).1.reader.MarkBehind := by
      intro place hplace
      rw [hentered] at hplace
      rw [hmark] at hplace
      cases hplace
    obtain ⟨worked, result, hdone, hagrees⟩ := agrees_visitRoot hact hroot (hplace.symm ▸ hnode)
      hbound' hremaining' hunmarked
    refine ⟨_, result, Session.root_of_room hresult hmore hscopes hfull hdone, ?_⟩
    -- the walk begins at the root, with one scope open
    have hpushed : (session.skipProlog.1.enterScope none).1.reader =
        session.skipProlog.1.reader.pushScope none := by
      rw [hentered, Session.reader_skipProlog, Reader.pushScope, hscopes]
    have hone : (session.skipProlog.1.enterScope none).1.reader.depth = 1 := by
      rw [hentered]
      rfl
    have hoptions : (session.skipProlog.1.enterScope none).1.reader.options =
        session.reader.options := by
      rw [hentered]
    rw [hplace, hone, hoptions, Session.account_enterScope, haccount', hpushed] at hagrees
    exact hagrees.leaveScope

end Root

/-! ## Readable trees -/

/-- A part of a walk **succeeds** when it neither fails nor is misled: `.through` or `.stopped`. -/
def Ending.Succeeds : Ending → Prop
  | through => True
  | stopped _ => True
  | failed .. => False
  | misled => False

/-- A walk that succeeds says where it ends: `ending.outcome? stop = some (.ok (), place)`. -/
theorem Ending.Succeeds.exists_outcome? {ending : Ending} (h : ending.Succeeds) (stop : Nat) :
    ∃ place, ending.outcome? stop = some (.ok (), place) := by
  cases ending with
  | through => exact ⟨stop, rfl⟩
  | stopped position => exact ⟨position, rfl⟩
  | failed fault position => exact h.elim
  | misled => exact h.elim

namespace Item

variable {maxDepth depth : Nat} {item : Item}

/-- In a readable item, the search for the closing tag finds it: `item.seek position = .through`. -/
theorem seek_of_isReadable (h : item.IsReadable maxDepth depth) (position : Nat) :
    item.seek position = .through := by
  cases item with
  | text bytes => rfl
  | markup mark content => rfl
  | empty name attributes => rfl
  | element name attributes items =>
    obtain ⟨hshort, hlate, -, -⟩ := h
    apply seek_of_not_closesEarly
    · omega
    · rw [hlate]
      exact Bool.false_ne_true

/-- Behind a visit that succeeds, a readable item is left, or the walk stops. -/
theorem succeeds_settle {ending : Ending} (h : item.IsReadable maxDepth depth)
    (hending : ending.Succeeds) (offset : Nat) (signal : Signal) :
    (item.settle offset signal ending).Succeeds := by
  cases ending with
  | through => cases signal <;> trivial
  | stopped position =>
    cases signal with
    | proceed =>
      rw [settle, seek_of_isReadable h]
      trivial
    | stop => trivial
  -- these two endings are excluded, as they do not succeed
  | failed fault position => exact hending.elim
  | misled => exact hending.elim

mutual

/-- **Whatever is done with a readable item**, its visit succeeds. By induction on the tree,
together with `succeeds_walk`. -/
theorem succeeds_visit (policy : Policy) (maxDepth : Nat) (item : Item) (depth offset : Nat)
    (account : Account) (h : item.IsReadable maxDepth depth) :
    (item.visit policy maxDepth depth offset account).2.Succeeds := by
  match item with
  | text bytes => rw [visit]; trivial
  | markup mark content => rw [visit]; trivial
  | empty name attributes =>
    rw [visit]
    split <;> trivial
  | element name attributes items =>
    have hseek := seek_of_isReadable h
    obtain ⟨-, -, hroom, hitems⟩ := h
    rw [visit]
    split
    · trivial
    · rw [hseek]
      trivial
    · -- there is room for the scope, so the items inside decide
      rw [if_neg (Nat.not_le.mpr hroom)]
      exact succeeds_walk policy maxDepth items (depth + 1) _ _ hitems

/-- Whatever is done with readable items, the walk over them succeeds. -/
theorem succeeds_walk (policy : Policy) (maxDepth : Nat) (items : List Item) (depth offset : Nat)
    (account : Account) (h : AllReadable maxDepth items depth) :
    (walk policy maxDepth items depth offset account).2.Succeeds := by
  match items with
  | [] => rw [walk]; trivial
  | item :: items =>
    obtain ⟨hitem, hitems⟩ := h
    have hvisit := succeeds_visit policy maxDepth item depth offset account hitem
    have hsettle := succeeds_settle hitem hvisit offset (item.signal policy offset account.seen)
    -- the walk goes on, or this item was the last one
    by_cases hthrough : item.settle offset (item.signal policy offset account.seen)
        (item.visit policy maxDepth depth offset account).2 = .through
    · rw [walk_cons_of_through hthrough]
      exact succeeds_walk policy maxDepth items depth _ _ hitems
    · rw [walk_cons_of_ne rfl hthrough]
      exact hsettle

end

end Item

/-! ## Whole parses -/

/-- **A parse comes to what a walk says**: where `walk.2.outcome? stop = some (expected, place)`,
its result is `expected`, its account is `walk.1` and its cursor is at `place`. Where the walk is
misled, it still begins with what the walk meets. -/
def Session.ComesTo (ended : Walking) (result : Except Fault Unit) (walk : Account × Ending)
    (stop : Nat) : Prop :=
  match walk.2.outcome? stop with
  | some (expected, place) =>
      result = expected ∧ ended.account = walk.1 ∧ ended.reader.position = place
  | none => walk.1.sights <+: ended.sights ∧ walk.1.bodies <+: ended.bodies

/-- Work that `Agrees` with a walk `ComesTo` what the walk says. -/
theorem Agrees.comesTo {node : Node} {before : Reader} {stop : Nat} {ended : Walking}
    {walk : Account × Ending} {result : Except Fault Unit}
    (h : Agrees node () before stop ended walk result) : ended.ComesTo result walk stop := by
  cases h with
  | through _ account_eq position_eq => exact ⟨rfl, account_eq, position_eq⟩
  | stopped _ account_eq => exact ⟨rfl, account_eq, rfl⟩
  | failed _ account_eq => exact ⟨rfl, account_eq, rfl⟩
  | misled _ hsights hbodies => exact ⟨hsights, hbodies⟩

/-- **Traversals are exact.** In a document `front ++ (renderAll prolog ++ (root.render ++ back))`
with a well-formed prolog and root element, a policy's parse from the front of the prolog ends. It
leaves no scope, and it `ComesTo` what `Item.parsed policy options.maxDepth` says, the walk of the
tree: the same nodes seen at the same depths, the same bodies, the same result, and the cursor at
the same place, whichever way the policy has left each of the nodes. And where the tree `IsReadable`
and there is room for its scopes, nothing fails and no walk is misled: `result = .ok ()`. -/
theorem parse_rendered (policy : Policy) (options : Options) (scopes : List Scope)
    (mark : Option Nat) {front back : Bytes} {prolog : List Item} {root : Item} {cursor : Cursor}
    {fuel : Nat} (hprolog : Item.WellFormedAll prolog)
    (hnone : ∀ item ∈ prolog, item.isElement = false) (hroot : root.WellFormed)
    (helement : root.isElement = true)
    (hdocument : cursor.document = front ++ (Item.renderAll prolog ++ (root.render ++ back)))
    (hposition : cursor.position = front.length) (hfuel : cursor.remainingLength < fuel) :
    ∃ ended result, policy.parse fuel ⟨cursor, scopes, options, mark⟩ = some (ended, result) ∧
      ended.reader.scopes = [] ∧
      ended.ComesTo result
        (Item.parsed policy options.maxDepth (front.length + (Item.renderAll prolog).length) root)
        (front.length + (Item.renderAll prolog).length + root.render.length) ∧
      (0 < options.maxDepth → root.IsReadable options.maxDepth 1 →
        (Item.parsed policy options.maxDepth (front.length + (Item.renderAll prolog).length)
          root).2.Succeeds ∧ result = .ok ()) := by
  have hact := keepsTo_perform policy fuel
  obtain ⟨node, hnode⟩ := Item.exists_node helement (front.length + (Item.renderAll prolog).length)
  -- the prolog, the root element and the other bytes are ahead
  have hremaining : cursor.remaining = Item.renderAll prolog ++ (root.render ++ back) := by
    rw [Cursor.remaining, Cursor.tailFrom, hposition, hdocument, List.drop_left]
  have hplace : front.length + (Item.renderAll prolog).length =
      cursor.position + (Item.renderAll prolog).length := by
    rw [hposition]
  obtain ⟨worked, result, hdone, hagrees⟩ := agrees_root hact
    ((Session.start ⟨cursor, scopes, options, mark⟩ []).beginParse ()) hroot hnode hprolog
    hnone (Nat.le_sub_one_of_lt hfuel) hremaining hplace rfl rfl (Session.account_record rfl rfl)
  have hrun : policy.parse fuel ⟨cursor, scopes, options, mark⟩ =
      some (worked.record (.parsed result), result) := Session.parse_of_root hdone
  -- the event at the end of the parse shows nothing
  have hended : Agrees node () _ _ (worked.record (.parsed result)) _ result :=
    hagrees.of_moved (.refl _ _) rfl (Session.account_record rfl rfl)
  have hcomes : (worked.record (.parsed result)).ComesTo result
      (Item.parsed policy options.maxDepth (front.length + (Item.renderAll prolog).length) root)
      (front.length + (Item.renderAll prolog).length + root.render.length) := hended.comesTo
  refine ⟨_, result, hrun, ?_, hcomes, ?_⟩
  · exact Session.scopes_of_parse (KeepsScopes.closed.composed.follows_perform policy.cast fuel) hrun
  · intro hroom hreadable
    have hsucceeds : (Item.parsed policy options.maxDepth
        (front.length + (Item.renderAll prolog).length) root).2.Succeeds := by
      rw [Item.parsed, if_neg (Nat.ne_of_gt hroom)]
      exact Item.succeeds_visit policy options.maxDepth root 1 _ .blank hreadable
    refine ⟨hsucceeds, ?_⟩
    obtain ⟨place, houtcome⟩ := hsucceeds.exists_outcome?
      (front.length + (Item.renderAll prolog).length + root.render.length)
    rw [Session.ComesTo, houtcome] at hcomes
    exact hcomes.1

/-- The element `<a><b>x</b><c/></a>`. -/
def elementWithChildren : Item :=
  .element [0x61] .empty [.element [0x62] .empty [.text [0x78]], .empty [0x63] .empty]

/-- The policy that descends into the first node, reads the body of the second one, and stops at the
third one. -/
def readSecond : Policy
  | [_] => ⟨.descend, .proceed⟩
  | [_, _] => ⟨.readBody, .proceed⟩
  | _ => ⟨.ignore, .stop⟩

/-- The cursor in front of the declaration `<?v>` and the element, behind a byte that belongs to
neither. -/
def cursorAtElement : Cursor :=
  ⟨[0x3C] ++ (Item.renderAll [.markup Byte.question [0x76]] ++ (elementWithChildren.render ++ [0x3E])),
    1, by decide +kernel⟩

/-- The body of `b` is read, and the policy stops behind `<c/>`, where the element `a` is left, at
offset 20. -/
theorem parse_rendered_elementWithChildren :
    ∃ ended, readSecond.parse 30 ⟨cursorAtElement, [.of none], .lenient, none⟩ =
        some (ended, .ok ()) ∧
      ended.bodies = [[0x78]] ∧ ended.reader.position = 20 := by
  have hprolog : Item.WellFormedAll [.markup Byte.question [0x76]] :=
    ⟨⟨.inl rfl, by decide⟩, trivial⟩
  have hclear : ∀ byte : UInt8, byte = 0x61 ∨ byte = 0x62 ∨ byte = 0x63 →
      Item.IsClearName [byte] := by
    rintro byte (rfl | rfl | rfl)
    all_goals exact ⟨nofun, by decide, by decide⟩
  have htext : (Item.text [0x78]).WellFormed := by
    show Byte.lessThan ∉ [0x78]
    decide
  have hroot : elementWithChildren.WellFormed :=
    ⟨hclear _ (.inl rfl), nofun, ⟨hclear _ (.inr (.inl rfl)), nofun, htext, trivial⟩,
      ⟨hclear _ (.inr (.inr rfl)), nofun⟩, trivial⟩
  have hdocument : cursorAtElement.document = [0x3C] ++
      (Item.renderAll [.markup Byte.question [0x76]] ++ (elementWithChildren.render ++ [0x3E])) := rfl
  have hfuel : cursorAtElement.remainingLength < 30 := by decide +kernel
  have hreadable : elementWithChildren.IsReadable Options.lenient.maxDepth 1 :=
    ⟨by decide, by decide, by decide, ⟨by decide, by decide, by decide, trivial, trivial⟩, trivial,
      trivial⟩
  obtain ⟨ended, result, hrun, -, hcomes, hok⟩ := parse_rendered readSecond .lenient [.of none] none
    hprolog (by decide) hroot rfl hdocument rfl hfuel
  obtain rfl : result = .ok () := (hok (by decide) hreadable).2
  have hwalk : (Item.parsed readSecond Options.lenient.maxDepth 5 elementWithChildren).2 =
      .stopped 20 := by decide +kernel
  have hbodies : (Item.parsed readSecond Options.lenient.maxDepth 5 elementWithChildren).1.bodies =
      [[0x78]] := by decide +kernel
  have hcomes' : ended.ComesTo (.ok ())
      (Item.parsed readSecond Options.lenient.maxDepth 5 elementWithChildren) 24 := hcomes
  rw [Session.ComesTo, hwalk] at hcomes'
  obtain ⟨-, haccount, hplace⟩ := hcomes'
  refine ⟨ended, hrun, ?_, hplace⟩
  rw [← hbodies, ← haccount]
  rfl

end TagWalk
