import TagWalk.Proofs.Nesting
import TagWalk.Proofs.Progress
import TagWalk.Proofs.Sights

/-! # Agreement with a walk

What it means that a reader's work on a written item and the walk over the item come to the same. The
walk counts offsets, and the reader has a mark beside its place, so agreement also says which marks
the work may leave behind: those of nodes whose bodies start inside of the item.

* **`Reader.Moved`** — a reader that has moved on and left its scopes as they were.
* **`Agrees`** — what work comes to, by the ending of the walk.
* **`Act.KeepsTo`** — an act that agrees with the visits of a policy.
* **`agrees_visitTag`** — opening the written tag of an item agrees with its visit. -/

namespace TagWalk

/-- A session in which a policy works. -/
abbrev Walking := Session Unit (List Node) Empty

namespace Session

/-! ## Accounts of sessions -/

/-- What a policy has met in a session: the state, and what `Session.sights` and `Session.bodies`
read off the trace. -/
def account (session : Walking) : Account := ⟨session.state, session.sights, session.bodies⟩

variable {session : Walking}

/-- An event that shows nothing leaves the account: neither `Moment.sight?` nor `Moment.body?` has
anything to say of it. -/
theorem account_record {event : Event Unit Empty}
    (hsight : Moment.sight? ⟨session.level, session.reader, event⟩ = none)
    (hbody : Moment.body? ⟨session.level, session.reader, event⟩ = none) :
    (session.record event).account = session.account := by
  rw [account, sights_record, bodies_record, hsight, hbody]
  simp [account]

@[simp] theorem account_log (session : Walking) (records : List LogRecord) :
    (session.log records).account = session.account := by
  simp [account]

@[simp] theorem account_step {α : Type} (session : Walking)
    (operation : Reader → Reader × Logged α) :
    (session.step operation).1.account = session.account := by
  simp [account]

@[simp] theorem account_enterScope (session : Walking) (element : Option Node) :
    (session.enterScope element).1.account = session.account := account_step _ _

@[simp] theorem account_leaveScope (session : Walking) :
    session.leaveScope.account = session.account := account_log _ _

/-- Passing markup shows nothing. -/
@[simp] theorem account_skipMarkup (session : Walking) (tag : Tag) :
    (session.skipMarkup tag).account = session.account := account_log _ _

/-- Closing a node shows nothing. -/
@[simp] theorem account_close (session : Walking) (parent : Node) (tag : Tag) :
    (session.close parent tag).account = session.account := account_record rfl rfl

/-- Skipping a node shows nothing. -/
@[simp] theorem account_skip (session : Walking) (node : Node) :
    (session.skip node).1.account = session.account := by
  show ((session.step (·.readBody node)).1.record (.skip node _)).account = _
  rw [account_record rfl rfl, account_step]

/-- A body that could not be read is not in the account. -/
theorem account_readBody_of_error {node : Node} {fault : Fault}
    (h : (session.reader.readBody node).2.result = .error fault) :
    (session.readBody node).1.account = session.account := by
  have hresult : (session.step (·.readBody node)).2 = .error fault := h
  show ((session.step (·.readBody node)).1.record
    (.body node (session.step (·.readBody node)).2)).account = _
  rw [hresult, account_record rfl rfl, account_step]

/-- **A body that was read** is in the account: `session.account.read body`. -/
theorem account_readBody_of_ok {node : Node} {body : Bytes}
    (h : (session.reader.readBody node).2.result = .ok body) :
    (session.readBody node).1.account = session.account.read body := by
  have hresult : (session.step (·.readBody node)).2 = .ok body := h
  show ((session.step (·.readBody node)).1.record
    (.body node (session.step (·.readBody node)).2)).account = _
  rw [hresult, account, sights_record, bodies_record]
  simp [account, Account.read, Moment.sight?, Moment.body?]

end Session

/-! ## Readers that move on -/

namespace Reader

/-- **A reader that has moved on** in its document, in the same scopes. Its mark is the old one, or
`some place` for a place from `low` on that it has passed. -/
structure Moved (low : Nat) (before after : Reader) : Prop where
  /-- The document is the same. -/
  document_eq : after.document = before.document
  /-- The options are the same. -/
  options_eq : after.options = before.options
  /-- The scopes are the same. -/
  scopes_eq : after.scopes = before.scopes
  /-- The reader does not move back. -/
  position_le : before.position ≤ after.position
  /-- A new mark lies in what was passed. -/
  mark : after.lastClosed = before.lastClosed ∨
    ∃ place, after.lastClosed = some place ∧ low ≤ place ∧ place ≤ after.position

/-- **No mark lies ahead of the reader**: a `place` that is marked has `place ≤ reader.position`. -/
def MarkBehind (reader : Reader) : Prop := ∀ place ∈ reader.lastClosed, place ≤ reader.position

namespace Moved

variable {low : Nat} {before between after : Reader}

/-- A reader that stays has moved by nothing, and has its old mark. -/
theorem refl (low : Nat) (reader : Reader) : Moved low reader reader :=
  ⟨rfl, rfl, rfl, Nat.le_refl _, .inl rfl⟩

/-- One move after another is a move, with the later mark if there is one. -/
theorem trans (h₁ : Moved low before between) (h₂ : Moved low between after) :
    Moved low before after := by
  refine ⟨h₂.document_eq.trans h₁.document_eq, h₂.options_eq.trans h₁.options_eq,
    h₂.scopes_eq.trans h₁.scopes_eq, Nat.le_trans h₁.position_le h₂.position_le, ?_⟩
  rcases h₂.mark with hsame | hnew
  · rcases h₁.mark with hold | ⟨place, hplace, hlow, hle⟩
    · exact .inl (hsame.trans hold)
    · exact .inr ⟨place, hsame.trans hplace, hlow, Nat.le_trans hle h₂.position_le⟩
  · exact .inr hnew

/-- A move past a place is one past any place before it: `Moved low` gives `Moved lower` for
`lower ≤ low`. -/
theorem of_le {lower : Nat} (h : Moved low before after) (hle : lower ≤ low) :
    Moved lower before after := by
  refine ⟨h.document_eq, h.options_eq, h.scopes_eq, h.position_le, h.mark.imp_right ?_⟩
  rintro ⟨place, hplace, hlow, hend⟩
  exact ⟨place, hplace, Nat.le_trans hle hlow, hend⟩

/-- Passing the next tag is a move past any place, as it sets no mark. -/
theorem passTag {tag : Tag} (low : Nat) (hnext : before.cursor.nextTag = .ok tag) :
    Moved low before (before.passTag tag) :=
  ⟨rfl, rfl, rfl, position_le_passTag hnext, .inl rfl⟩

/-- Marking a node whose body starts behind the reader is a move past the start of that body,
`Moved node.bodyStart`. -/
theorem markClosed {node : Node} (h : Moved node.bodyStart before after)
    (hle : node.bodyStart ≤ after.position) :
    Moved node.bodyStart before (after.markClosed node) :=
  ⟨h.document_eq, h.options_eq, h.scopes_eq, h.position_le,
    .inr ⟨node.bodyStart, rfl, Nat.le_refl _, hle⟩⟩

/-- A move inside of a scope is one around it, when the scope is left: `leaveScope` takes off what
`pushScope` put on. -/
theorem leaveScope {element : Option Node} (h : Moved low (before.pushScope element) after) :
    Moved low before after.leaveScope.1 := by
  have hplace : after.leaveScope.1.position = after.position :=
    congrArg Cursor.position after.cursor_leaveScope
  refine ⟨?_, ?_, ?_, ?_, ?_⟩
  · exact (congrArg Cursor.document after.cursor_leaveScope).trans h.document_eq
  · rw [options_leaveScope]
    exact h.options_eq
  · rw [scopes_leaveScope, h.scopes_eq]
    rfl
  · rw [hplace]
    exact h.position_le
  · rw [lastClosed_leaveScope, hplace]
    exact h.mark

/-- The depth is the same, since the scopes are. -/
theorem depth_eq (h : Moved low before after) : after.depth = before.depth :=
  congrArg List.length h.scopes_eq

/-- No mark gets ahead of a reader that moves: a new one lies in what it has passed. -/
theorem markBehind (h : Moved low before after) (hbefore : before.MarkBehind) :
    after.MarkBehind := by
  intro place hplace
  rcases h.mark with hsame | ⟨mark, hmark, -, hle⟩
  · exact Nat.le_trans (hbefore place (hsame ▸ hplace)) h.position_le
  · rw [hmark] at hplace
    exact Option.mem_some.mp hplace ▸ hle

/-- **A node that starts before a move** does not get its mark there: for `place < low`,
`some place` is not a new mark. -/
theorem lastClosed_ne {place : Nat} (h : Moved low before after) (hlt : place < low)
    (hbefore : before.lastClosed ≠ some place) : after.lastClosed ≠ some place := by
  rcases h.mark with hsame | ⟨mark, hmark, hlow, -⟩
  · rwa [hsame]
  · rw [hmark]
    intro heq
    have := Option.some.inj heq
    omega

end Moved

variable {reader : Reader} {node : Node}

/-- A node that has a closing tag and no mark is not closed, so `isClosed` is `false`. -/
theorem isClosed_of_ne (hopen : node.selfClosing = false)
    (hmark : reader.lastClosed ≠ some node.bodyStart) : reader.isClosed node = false := by
  simp [isClosed, hopen, hmark]

/-- A node that is marked is closed: the mark is its own `bodyStart`. -/
theorem isClosed_of_eq (hmark : reader.lastClosed = some node.bodyStart) :
    reader.isClosed node = true := by
  simp [isClosed, hmark]

end Reader

/-! ## Bodies of written elements -/

section Bodies

variable {reader : Reader} {name : Bytes} {attributes : AttributeList} {items : List Item}
  {rest : Bytes} {bodyStart : Nat}

/-- **Reading the body of a written element** comes to what the search for its closing tag comes to,
by the three endings of `Item.seek`: to anything where that is `.misled`, to a fault that leaves the
reader where it is where it has `.failed`, and where it goes `.through` to the body
`Item.renderAll items`, with the reader behind the closing tag and the mark `some bodyStart`. -/
theorem Reader.readBody_cases {node : Node} (hnode : node = ⟨⟨name, attributes, false⟩, bodyStart⟩)
    (hname : Item.IsClearName name) (hitems : Item.WellFormedAll items)
    (hdrop : reader.document.drop bodyStart =
      Item.renderAll items ++ (Item.closing name ++ rest))
    (hle : reader.position ≤ bodyStart + (Item.renderAll items).length + (Item.closing name).length) :
    (Item.element name attributes items).seek reader.position = .misled ∨
      (∃ fault, (Item.element name attributes items).seek reader.position =
          .failed fault reader.position ∧
        (reader.readBody node).1 = reader ∧ (reader.readBody node).2.result = .error fault) ∨
      ((Item.element name attributes items).seek reader.position = .through ∧
        (reader.readBody node).2.result = .ok (Item.renderAll items) ∧
        Reader.Moved bodyStart reader (reader.readBody node).1 ∧
        (reader.readBody node).1.position =
          bodyStart + (Item.renderAll items).length + (Item.closing name).length ∧
        (reader.readBody node).1.lastClosed = some bodyStart) := by
  subst hnode
  have hlength := congrArg List.length hdrop
  simp only [List.length_drop, List.length_append] at hlength
  have hclosing : (Item.closing name).length = name.length + 3 := by simp [Item.closing]
  by_cases hlong : maxNameLength < name.length
  · refine .inr (.inl ⟨_, Item.seek_of_long hlong, ?_⟩)
    have hfault : reader.cursor.closingTagOf ⟨⟨name, attributes, false⟩, bodyStart⟩ =
        .error (.nameTooLong name.length maxNameLength) := Cursor.closingTagOf_of_long hdrop hlong
    simp [readBody, hfault]
  · by_cases hearly : Item.closesEarly name items = true
    · exact .inl (Item.seek_of_closesEarly hlong hearly)
    · have hnone : (Item.renderAll items).indexOf? (Item.closing name) = none := by
        rw [← Option.not_isSome_iff_eq_none, Bytes.isSome_indexOf?_iff,
          ← Item.closesEarly_iff hname hitems]
        exact hearly
      have hfound : reader.cursor.closingTagOf ⟨⟨name, attributes, false⟩, bodyStart⟩ =
          .ok (bodyStart + (Item.renderAll items).length) :=
        Cursor.closingTagOf_of_drop hdrop hname.not_mem.2.2.1 hlong hnone
      -- the reader is in front of the closing tag, so it does not stay where it is
      have hposition : (reader.readBody ⟨⟨name, attributes, false⟩, bodyStart⟩).1.position =
          bodyStart + (Item.renderAll items).length + (Item.closing name).length := by
        simp only [readBody, Bool.false_eq_true, if_false, hfound]
        show min (max reader.position (bodyStart + (Item.renderAll items).length +
          (Item.closing name).length)) reader.document.length = _
        omega
      have hmark : (reader.readBody ⟨⟨name, attributes, false⟩, bodyStart⟩).1.lastClosed =
          some bodyStart := by
        simp [readBody, hfound, markClosed]
      refine .inr (.inr ⟨Item.seek_of_not_closesEarly hlong hearly, ?_, ?_, hposition, hmark⟩)
      · simp only [readBody, Bool.false_eq_true, if_false, hfound, Bytes.slice, hdrop]
        simp [Logged.quiet]
      · refine ⟨reader.document_readBody _, ?_, ?_, ?_, .inr ⟨bodyStart, hmark, Nat.le_refl _, ?_⟩⟩
        · simp [readBody, hfound, markClosed]
        · simp [readBody, hfound, markClosed]
        · exact reader.position_le_readBody _
        · rw [hposition]
          omega

end Bodies

/-! ## Tags of written items -/

namespace Item

variable {item : Item} {node : Node} {offset : Nat}

/-- A body starts behind the place of its item, as an opening tag has at least two bytes. -/
theorem lt_bodyStart (hnode : item.node? offset = some node) : offset < node.bodyStart := by
  cases item with
  | text bytes => cases hnode
  | markup mark content => cases hnode
  | empty name attributes =>
    obtain rfl := Option.some.inj hnode
    show offset < offset + (opening name attributes).length + 2
    omega
  | element name attributes items =>
    obtain rfl := Option.some.inj hnode
    show offset < offset + (opening name attributes).length + 1
    omega

/-- A clear name begins like the name of an element: `TagKind.ofByte?` of its first byte is
`.element`. -/
theorem exists_head?_inner {name : Bytes} (hname : IsClearName name) (attributes : AttributeList) :
    ∃ byte, (inner name attributes).head? = some byte ∧
      TagKind.ofByte? (some byte) = .element := by
  cases name with
  | nil => exact absurd rfl hname.ne_nil
  | cons byte name =>
    have hslash : byte ≠ Byte.slash := fun heq => hname.not_mem.2.2.2 (heq ▸ List.mem_cons_self)
    have hquestion : byte ≠ Byte.question := fun heq => hname.head?_ne.1 (congrArg some heq)
    have hbang : byte ≠ Byte.bang := fun heq => hname.head?_ne.2 (congrArg some heq)
    refine ⟨byte, rfl, ?_⟩
    simp [TagKind.ofByte?, hslash, hquestion, hbang]

/-- **A written element begins with its tag**, `<body>` without a `>` in `body`, and
`Declaration.decode` of `body` is the element's node, with any options and at any place. -/
theorem exists_tag (hitem : item.WellFormed) (hnode : item.node? offset = some node) :
    ∃ body tail, item.render = Byte.lessThan :: (body ++ Byte.greaterThan :: tail) ∧
      Byte.greaterThan ∉ body ∧ node.bodyStart = offset + body.length + 2 ∧
      (∃ byte, body.head? = some byte ∧ TagKind.ofByte? (some byte) = .element) ∧
      ∀ overflow position, Declaration.decode overflow position body =
        .quiet (.ok node.toDeclaration) := by
  cases item with
  | text bytes => cases hnode
  | markup mark content => cases hnode
  | empty name attributes =>
    obtain ⟨hname, hlist⟩ := hitem
    obtain rfl := Option.some.inj hnode
    -- the slash at the end belongs to what stands between the brackets
    obtain ⟨byte, hhead, hkind⟩ := exists_head?_inner hname attributes
    refine ⟨inner name attributes ++ [Byte.slash], [], ?_, ?_, ?_, ⟨byte, ?_, hkind⟩,
      fun overflow position => decode_inner_slash overflow position hname hlist⟩
    · rw [render, opening_eq, List.append_assoc]
      rfl
    · rw [List.mem_append]
      rintro (hm | hm)
      · exact greaterThan_not_mem_inner hname hlist hm
      · cases List.mem_singleton.mp hm
    · rw [opening_eq, List.length_append]
      rfl
    · rw [List.head?_append, hhead]
      rfl
  | element name attributes items =>
    obtain ⟨hname, hlist, -⟩ := hitem
    obtain rfl := Option.some.inj hnode
    refine ⟨inner name attributes, renderAll items ++ closing name, ?_,
      greaterThan_not_mem_inner hname hlist, ?_, exists_head?_inner hname attributes,
      fun overflow position => decode_inner overflow position hname hlist⟩
    · rw [render, opening_eq]
      rfl
    · rw [opening_eq]
      rfl

/-- **The tag of a written element** is the next one behind a text `gap` without `<`:
`cursor.nextTag = .ok tag` with `tag.start = offset`, it is an `.element`, and what it says is the
item's node. -/
theorem nextTag_of_element {cursor : Cursor} {gap rest : Bytes} (hitem : item.WellFormed)
    (hnode : item.node? offset = some node) (hgap : Byte.lessThan ∉ gap)
    (hremaining : cursor.remaining = gap ++ (item.render ++ rest))
    (hoffset : offset = cursor.position + gap.length) :
    ∃ tag, cursor.nextTag = .ok tag ∧ cursor.kindOf tag = .element ∧ tag.start = offset ∧
      (cursor.passTag tag).position = node.bodyStart ∧
      ∀ overflow position, Declaration.decode overflow position
        (cursor.document.slice (tag.start + 1) tag.stop) = .quiet (.ok node.toDeclaration) := by
  obtain ⟨body, tail, hrender, hbody, hstart, ⟨byte, hhead, hkind⟩, hdecode⟩ := exists_tag hitem hnode
  have hahead : cursor.remaining =
      gap ++ Byte.lessThan :: (body ++ Byte.greaterThan :: (tail ++ rest)) := by
    rw [hremaining, hrender]
    simp
  refine ⟨cursor.tagBehind gap body, Cursor.nextTag_of_remaining hahead hgap hbody,
    (Cursor.kindOf_tagBehind hahead hhead).trans hkind, hoffset.symm, ?_, ?_⟩
  · rw [hstart, hoffset]
    exact (Cursor.remaining_passTag_tagBehind hahead).2
  · intro overflow position
    rw [Cursor.slice_tagBehind hahead]
    exact hdecode overflow position

/-- **A written declaration** is the next tag behind a text `gap` without `<`; it is `.markup`, and
the cursor ends behind it with `rest` remaining. -/
theorem nextTag_of_markup {cursor : Cursor} {gap rest content : Bytes} {mark : UInt8}
    (hitem : (markup mark content).WellFormed) (hgap : Byte.lessThan ∉ gap)
    (hremaining : cursor.remaining = gap ++ ((markup mark content).render ++ rest)) :
    ∃ tag, cursor.nextTag = .ok tag ∧ cursor.kindOf tag = .markup ∧
      (cursor.passTag tag).remaining = rest ∧
      (cursor.passTag tag).position =
        cursor.position + gap.length + (markup mark content).render.length := by
  obtain ⟨hmark, hcontent⟩ := hitem
  have hahead : cursor.remaining =
      gap ++ Byte.lessThan :: (mark :: content ++ Byte.greaterThan :: rest) := by
    rw [hremaining, render]
    simp
  -- the mark is `?` or `!`, so the first `>` is the one behind the content
  have hbody : Byte.greaterThan ∉ mark :: content := by
    rw [List.mem_cons]
    rintro (rfl | hm)
    · exact absurd hmark (by decide)
    · exact hcontent hm
  obtain ⟨hrest, hposition⟩ := Cursor.remaining_passTag_tagBehind hahead
  refine ⟨cursor.tagBehind gap (mark :: content), Cursor.nextTag_of_remaining hahead hgap hbody,
    (Cursor.kindOf_tagBehind hahead rfl).trans (if_pos hmark), hrest, ?_⟩
  rw [hposition, render]
  simp only [List.length_cons, List.length_append, List.length_nil]
  omega

end Item

/-! ## What work comes to -/

/-- **Work that agrees with a walk**, by the ending of the walk. The part of the document that it is
about has the node `node` and ends at `stop`, and `value` is what the work is answered with where
nothing fails. Account and place are those of the walk; only of a `.misled` walk no more is said
than that what it met was met first. -/
inductive Agrees {β : Type} (node : Node) (value : β) (before : Reader) (stop : Nat)
    (ended : Walking) : Account × Ending → Except Fault β → Prop
  /-- The reader is at the end, and the node is closed. -/
  | through {account : Account} (moved : Reader.Moved node.bodyStart before ended.reader)
      (account_eq : ended.account = account) (position_eq : ended.reader.position = stop)
      (closed : ended.reader.isClosed node = true) :
      Agrees node value before stop ended (account, .through) (.ok value)
  /-- The reader is at the same place as the walk, and the node is not closed. -/
  | stopped {account : Account} (moved : Reader.Moved node.bodyStart before ended.reader)
      (account_eq : ended.account = account) (position_le : ended.reader.position ≤ stop)
      (unclosed : ended.reader.isClosed node = false) :
      Agrees node value before stop ended (account, .stopped ended.reader.position) (.ok value)
  /-- The reader is at the same place as the walk, with the same fault. -/
  | failed {account : Account} (fault : Fault) (account_eq : ended.account = account) :
      Agrees node value before stop ended (account, .failed fault ended.reader.position)
        (.error fault)
  /-- A misled walk has met what the work meets first. -/
  | misled {account : Account} (answer : Except Fault β) (sights_isPrefix : account.sights <+: ended.sights)
      (bodies_isPrefix : account.bodies <+: ended.bodies) :
      Agrees node value before stop ended (account, .misled) answer

namespace Agrees

variable {β γ : Type} {node : Node} {value : β} {before between : Reader} {stop : Nat}
  {ended after : Walking} {walk : Account × Ending} {answer : Except Fault β}

/-- Work of which only the scopes and the trace change goes on to agree: place, mark and account are
all that `Agrees` looks at. -/
theorem imp (h : Agrees node value between stop ended walk answer)
    (hmoved : Reader.Moved node.bodyStart between ended.reader →
      Reader.Moved node.bodyStart before after.reader)
    (hposition : after.reader.position = ended.reader.position)
    (hmark : after.reader.lastClosed = ended.reader.lastClosed)
    (haccount : after.account = ended.account) :
    Agrees node value before stop after walk answer := by
  -- whether the node is closed depends on the mark alone
  have hclosed : after.reader.isClosed node = ended.reader.isClosed node := by
    rw [Reader.isClosed, Reader.isClosed, hmark]
  cases h with
  | through moved account_eq position_eq closed =>
    exact .through (hmoved moved) (haccount.trans account_eq) (hposition.trans position_eq)
      (hclosed.trans closed)
  | stopped moved account_eq position_le unclosed =>
    rw [← hposition] at position_le ⊢
    exact .stopped (hmoved moved) (haccount.trans account_eq) position_le (hclosed.trans unclosed)
  | failed fault account_eq =>
    rw [← hposition]
    exact .failed fault (haccount.trans account_eq)
  | misled answer sights_isPrefix bodies_isPrefix =>
    have hsights : after.sights = ended.sights := congrArg Account.sights haccount
    have hbodies : after.bodies = ended.bodies := congrArg Account.bodies haccount
    exact .misled _ (hsights ▸ sights_isPrefix) (hbodies ▸ bodies_isPrefix)

/-- Answers may be read in another way: `f value` for `value`, and faults as they are. -/
theorem map (h : Agrees node value before stop ended walk answer) (f : β → γ) :
    Agrees node (f value) before stop ended walk (answer.map f) := by
  cases h with
  | through moved account_eq position_eq closed => exact .through moved account_eq position_eq closed
  | stopped moved account_eq position_le unclosed =>
    exact .stopped moved account_eq position_le unclosed
  | failed fault account_eq => exact .failed fault account_eq
  | misled answer sights_isPrefix bodies_isPrefix => exact .misled _ sights_isPrefix bodies_isPrefix

/-- Work that begins earlier and ends with an event that shows nothing agrees as well. -/
theorem of_moved (h : Agrees node value between stop ended walk answer)
    (hmoved : Reader.Moved node.bodyStart before between) (hreader : after.reader = ended.reader)
    (haccount : after.account = ended.account) :
    Agrees node value before stop after walk answer := by
  apply h.imp
  · intro hlater
    rw [hreader]
    exact hmoved.trans hlater
  · rw [hreader]
  · rw [hreader]
  · exact haccount

/-- **Work inside of a scope** agrees when the scope is left, too, now with the reader `before` the
scope was opened. -/
theorem leaveScope {element : Option Node}
    (h : Agrees node value (before.pushScope element) stop ended walk answer) :
    Agrees node value before stop ended.leaveScope walk answer := by
  apply h.imp
  · intro hinside
    rw [Session.reader_leaveScope]
    exact hinside.leaveScope
  · rw [Session.reader_leaveScope]
    exact congrArg Cursor.position ended.reader.cursor_leaveScope
  · rw [Session.reader_leaveScope, Reader.lastClosed_leaveScope]
  · exact Session.account_leaveScope ended

/-- Work that fails where the walk fails, at `position` and with the same fault, agrees with it. -/
theorem failed_at {account : Account} {fault : Fault} {position : Nat} (haccount : ended.account = account)
    (hposition : ended.reader.position = position) :
    Agrees node value before stop ended (account, .failed fault position) (.error fault) :=
  hposition ▸ .failed fault haccount

/-- Whatever the ending, what the walk was shown was shown first: `walk.1.sights <+:
ended.sights`. -/
theorem sights_isPrefix (h : Agrees node value before stop ended walk answer) :
    walk.1.sights <+: ended.sights := by
  cases h with
  | through _ account_eq => exact account_eq ▸ List.prefix_refl _
  | stopped _ account_eq => exact account_eq ▸ List.prefix_refl _
  | failed _ account_eq => exact account_eq ▸ List.prefix_refl _
  | misled _ hfront => exact hfront

/-- Whatever the ending, the bodies of the walk were read first: `walk.1.bodies <+:
ended.bodies`. -/
theorem bodies_isPrefix (h : Agrees node value before stop ended walk answer) :
    walk.1.bodies <+: ended.bodies := by
  cases h with
  | through _ account_eq => exact account_eq ▸ List.prefix_refl _
  | stopped _ account_eq => exact account_eq ▸ List.prefix_refl _
  | failed _ account_eq => exact account_eq ▸ List.prefix_refl _
  | misled _ _ hfront => exact hfront

end Agrees

/-- **A policy is handed the node of an item**: the reader is just behind the item's tag, at
`node.bodyStart`, and `account` is the one before the visit. -/
structure Handed (item : Item) (node : Node) (offset : Nat) (account : Account)
    (session : Walking) : Prop where
  /-- The item can be read. -/
  wellFormed : item.WellFormed
  /-- The node is the item's. -/
  node_eq : item.node? offset = some node
  /-- The item stands in the document. -/
  document_eq : ∃ rest, session.reader.document.drop offset = item.render ++ rest
  /-- The reader is where the body starts. -/
  position_eq : session.reader.position = node.bodyStart
  /-- The mark is that of an earlier node. -/
  mark_lt : ∀ place ∈ session.reader.lastClosed, place < node.bodyStart
  /-- The policy has not seen the node yet. -/
  state_eq : session.state = account.seen
  /-- The visit was shown. -/
  sights_eq : session.sights = (account.meet session.reader.depth node).sights
  /-- No body was read for it. -/
  bodies_eq : session.bodies = account.bodies

/-- **An act that keeps to a policy** while fewer than `bound` bytes are left: it ends, and its work
on the node of an item `Agrees` with `Item.visit`, the visit of the item in a walk. -/
structure Act.KeepsTo (act : Act Unit (List Node) Empty) (policy : Policy) (bound : Nat) :
    Prop where
  /-- The work ends. -/
  returnsBelow : act.ReturnsBelow bound
  /-- What was shown stays shown. -/
  follows : act.Follows fun _ _ _ => True
  /-- The work agrees with the visit. -/
  agrees {item : Item} {node : Node} {offset : Nat} {account : Account} {session : Walking}
    (handed : Handed item node offset account session)
    (below : session.remainingLength < bound) :
    ∃ ended answer, act () node session = some (ended, answer) ∧
      TagWalk.Agrees node (policy (node :: account.seen)).signal session.reader
        (offset + item.render.length) ended
        (item.visit policy session.reader.options.maxDepth session.reader.depth offset account)
        answer

section VisitTag

variable {act : Act Unit (List Node) Empty} {policy : Policy} {bound : Nat}

/-- **Opening the tag of a written item agrees with its visit**: from `gap` in front of it on, the
next tag is the item's, and what comes of `Session.visitTag` `Agrees` with `item.visit`. -/
theorem agrees_visitTag (hact : act.KeepsTo policy bound) {item : Item} {node : Node}
    {offset : Nat} {gap rest : Bytes} {session : Walking} (hitem : item.WellFormed)
    (hnode : item.node? offset = some node) (hbound : session.remainingLength ≤ bound)
    (hgap : Byte.lessThan ∉ gap)
    (hremaining : session.reader.remaining = gap ++ (item.render ++ rest))
    (hoffset : offset = session.reader.position + gap.length)
    (hmark : session.reader.MarkBehind) :
    ∃ tag visited answer, session.reader.cursor.nextTag = .ok tag ∧
      session.reader.cursor.kindOf tag = .element ∧
      session.visitTag act () tag = some (visited, answer.map (node, ·)) ∧
      Agrees node (policy (node :: session.state)).signal session.reader
        (offset + item.render.length) visited
        (item.visit policy session.reader.options.maxDepth session.reader.depth offset
          session.account) answer := by
  obtain ⟨tag, hnext, hkind, -, hpassed, hdecode⟩ :=
    Item.nextTag_of_element hitem hnode hgap hremaining hoffset
  -- the tag is decoded into the node
  have hopen : (session.openNode tag).2 = .ok node := by
    show Except.map _ (Declaration.decode _ _ (session.reader.cursor.document.slice _ _)).result = _
    rw [hdecode]
    show Except.ok (Node.mk node.toDeclaration (session.reader.cursor.passTag tag).position) = _
    rw [hpassed]
  have hreader : (session.openNode tag).1.reader = session.reader.passTag tag :=
    Session.reader_openNode session tag
  have hbehind := Item.lt_bodyStart hnode
  -- the node is handed over behind its tag, and the visit has been shown
  have hhanded : Handed item node offset session.account
      ((session.openNode tag).1.record (.visit () node tag session.reader.position)) := by
    refine ⟨hitem, hnode, ⟨rest, ?_⟩, ?_, ?_, ?_, ?_, ?_⟩
    · rw [Session.reader_record, hreader, hoffset]
      exact Cursor.drop_document_of_remaining hremaining
    · rw [Session.reader_record, hreader]
      exact hpassed
    · rw [Session.reader_record, hreader]
      intro place hplace
      have hle := hmark place hplace
      omega
    · exact session.state_openNode tag
    · have hdepth : (session.reader.passTag tag).depth = session.reader.depth := rfl
      have hposition : (session.reader.passTag tag).position = node.bodyStart := hpassed
      rw [Session.sights_record, Session.reader_record, hreader]
      simp [Moment.sight?, hposition, hdepth, Account.meet, Session.openNode, Session.account]
    · rw [Session.bodies_record]
      simp [Moment.body?, Session.openNode, Session.account]
  -- a tag takes bytes, so that the act keeps to the policy inside of it
  have hbelow : (session.openNode tag).1.remainingLength < bound := by
    refine Nat.lt_of_lt_of_le ?_ hbound
    rw [Session.remainingLength, hreader]
    exact Cursor.remainingLength_passTag hnext
  obtain ⟨ended, answer, hwork, hagrees⟩ := hact.agrees hhanded hbelow
  rw [Session.reader_record, hreader] at hagrees
  refine ⟨tag, _, answer, hnext, hkind, Session.visitTag_of_ok hopen hwork, ?_⟩
  exact hagrees.of_moved (.passTag node.bodyStart hnext) rfl (Session.account_record rfl rfl)

end VisitTag

end TagWalk
