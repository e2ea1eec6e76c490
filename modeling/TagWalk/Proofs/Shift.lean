import TagWalk.Proofs.Touring

/-! # Documents behind a prolog

Bytes in front of the place where a parse begins are never looked at: every search begins at the cursor
or behind it, or at the body of a node that was handed out. So with other bytes in front of them, a
cursor, a node and a whole tour are the same but for their places, and each step of a tour is the same
step. The declarations of a prolog are such bytes, since the parse of a document skips them one by one
up to where the document begins.

* **`Cursor.shift`**, **`Tour.shift`** — with other bytes in front of the document.
* **`Fault.shift`** — of a fault, the place moves and nothing else.
* **`Tour.step_shift`**, **`Tour.run_shift`** — steps and whole tours stay the same.
* **`PrologBlock`** — a text and a declaration.
* **`parse_prolog`** — a prolog moves the places of a parse, and changes nothing else. -/

namespace TagWalk

/-! ## Places that are moved -/

/-- A tag with `offset` other bytes in front of its document. -/
def Tag.shift (offset : Nat) (tag : Tag) : Tag := ⟨offset + tag.start, offset + tag.stop⟩

/-- A node with `offset` other bytes in front of its document: its body starts so much later, and
its declaration stays. -/
def Node.shift (offset : Nat) (node : Node) : Node :=
  { node with bodyStart := offset + node.bodyStart }

/-- **A fault with other bytes in front of the document**: the places move, and nothing else does. -/
def Fault.shift (offset : Nat) : Fault → Fault
  | missingTagStart position => missingTagStart (offset + position)
  | missingTagEnd position => missingTagEnd (offset + position)
  | emptyDeclaration position => emptyDeclaration (offset + position)
  | unexpectedClosingTag position => unexpectedClosingTag (offset + position)
  | fault => fault

/-- A sight with other bytes in front of the document: its node and its place move, and its depth
stays. -/
def Sight.shift (offset : Nat) (sight : Sight) : Sight :=
  ⟨sight.node.shift offset, sight.depth, offset + sight.position⟩

/-- An account with other bytes in front of the document: what was seen moves, and the bodies
stay. -/
def Account.shift (offset : Nat) (account : Account) : Account :=
  ⟨account.seen.map (.shift offset), account.sights.map (.shift offset), account.bodies⟩

/-- A text that is moved is decoded in the same way, and only the place of an empty name moves:
`mapError (.shift offset)`. -/
theorem Declaration.result_decode_shift (overflow : Overflow) (offset position : Nat) (text : Bytes) :
    (decode overflow (offset + position) text).result =
      (decode overflow position text).result.mapError (.shift offset) := by
  unfold decode
  dsimp only
  split
  · rfl
  · split <;> rfl

namespace Cursor

/-- **A cursor with other bytes in front of its document**: the document is
`front ++ cursor.document`, and the place is `front.length` further. -/
def shift (front : Bytes) (cursor : Cursor) : Cursor where
  document := front ++ cursor.document
  position := front.length + cursor.position
  position_le := by
    rw [List.length_append]
    exact Nat.add_le_add_left cursor.position_le _

variable {front : Bytes} {cursor : Cursor} {node : Node}

@[simp] theorem shift_nil (cursor : Cursor) : cursor.shift [] = cursor :=
  ext_of_position rfl (Nat.zero_add _)

/-- Bytes in front of other bytes. -/
theorem shift_shift (front back : Bytes) (cursor : Cursor) :
    (cursor.shift back).shift front = cursor.shift (front ++ back) := by
  apply ext_of_position
  · exact (List.append_assoc _ _ _).symm
  · simp [shift, Nat.add_assoc]

/-- What is ahead of a place stays ahead of it. -/
@[simp] theorem tailFrom_shift (front : Bytes) (cursor : Cursor) (start : Nat) :
    (cursor.shift front).tailFrom (front.length + start) = cursor.tailFrom start := by
  simp [tailFrom, shift, List.drop_append]

@[simp] theorem byteAt?_shift (front : Bytes) (cursor : Cursor) (offset : Nat) :
    (cursor.shift front).byteAt? (front.length + offset) = cursor.byteAt? offset := by
  simp [byteAt?, shift, List.getElem?_append_right]

@[simp] theorem slice_shift (front : Bytes) (cursor : Cursor) (start stop : Nat) :
    (cursor.shift front).document.slice (front.length + start) (front.length + stop) =
      cursor.document.slice start stop := by
  rw [Bytes.slice, Bytes.slice, Nat.add_sub_add_left]
  exact congrArg (List.take _) (tailFrom_shift front cursor start)

@[simp] theorem setPosition_shift (front : Bytes) (cursor : Cursor) (position : Nat) :
    (cursor.shift front).setPosition (front.length + position) =
      (cursor.setPosition position).shift front := by
  apply ext_of_position
  · rfl
  · simp [shift]

@[simp] theorem isEof_shift (front : Bytes) (cursor : Cursor) :
    (cursor.shift front).isEof = cursor.isEof := by
  simp [isEof, shift]

/-- A byte is found at the same place behind the other bytes: `front.length +` where it is found
without them. -/
theorem findByteFrom?_shift (front : Bytes) (cursor : Cursor) (start : Nat) (byte : UInt8) :
    (cursor.shift front).findByteFrom? (front.length + start) byte =
      (cursor.findByteFrom? start byte).map (front.length + ·) := by
  rw [findByteFrom?, findByteFrom?, tailFrom_shift, Option.map_map]
  exact congrArg (Option.map · _) (funext fun place => Nat.add_assoc _ _ _)

/-- A needle is found at the same place behind the other bytes, `front.length +` where it is found
without them; none of it is looked for in `front`. -/
theorem findFrom?_shift (front : Bytes) (cursor : Cursor) (start : Nat) (needle : Bytes) :
    (cursor.shift front).findFrom? (front.length + start) needle =
      (cursor.findFrom? start needle).map (front.length + ·) := by
  rw [findFrom?, findFrom?, tailFrom_shift, Option.map_map]
  exact congrArg (Option.map · _) (funext fun place => Nat.add_assoc _ _ _)

/-- **The next tag is the same one**, or cannot be found for the same reason: places move by
`front.length`, also that of the fault. -/
theorem nextTag_shift (front : Bytes) (cursor : Cursor) :
    (cursor.shift front).nextTag =
      (cursor.nextTag.map (.shift front.length)).mapError (.shift front.length) := by
  unfold nextTag
  rw [findByte?, show (cursor.shift front).position = front.length + cursor.position from rfl,
    findByteFrom?_shift, findByte?]
  cases cursor.findByteFrom? cursor.position Byte.lessThan with
  | none => rfl
  | some start =>
    simp only [Option.map_some, Nat.add_assoc, findByteFrom?_shift]
    cases cursor.findByteFrom? (start + 1) Byte.greaterThan with
    | none => rfl
    | some stop => rfl

/-- It is of the same kind. -/
@[simp] theorem kindOf_shift (front : Bytes) (cursor : Cursor) (tag : Tag) :
    (cursor.shift front).kindOf (tag.shift front.length) = cursor.kindOf tag :=
  congrArg TagKind.ofByte? (byteAt?_shift front cursor (tag.start + 1))

/-- It is passed in the same way. -/
@[simp] theorem passTag_shift (front : Bytes) (cursor : Cursor) (tag : Tag) :
    (cursor.shift front).passTag (tag.shift front.length) = (cursor.passTag tag).shift front := by
  rw [passTag, passTag, ← setPosition_shift]
  rfl

/-- It holds the same node, `shift`ed, or cannot be decoded for the same reason. -/
theorem decodeTag_shift (front : Bytes) (cursor : Cursor) (overflow : Overflow) (tag : Tag) :
    (cursor.shift front).decodeTag overflow (tag.shift front.length) =
      ((cursor.decodeTag overflow tag).map (.shift front.length)).mapError
        (.shift front.length) := by
  have htext : (cursor.shift front).document.slice ((tag.shift front.length).start + 1)
      (tag.shift front.length).stop = cursor.document.slice (tag.start + 1) tag.stop :=
    slice_shift front cursor (tag.start + 1) tag.stop
  unfold decodeTag
  dsimp only
  rw [htext, passTag_shift, show (tag.shift front.length).start = front.length + tag.start from rfl,
    Declaration.result_decode_shift]
  cases (Declaration.decode overflow tag.start
    (cursor.document.slice (tag.start + 1) tag.stop)).result with
  | error fault => rfl
  | ok declaration => rfl

/-- **A closing tag is found at the same place**, or cannot be found for the same reason: its fault
names no place. -/
theorem closingTagOf_shift (front : Bytes) (cursor : Cursor) (node : Node) :
    (cursor.shift front).closingTagOf (node.shift front.length) =
      ((cursor.closingTagOf node).map (front.length + ·)).mapError (.shift front.length) := by
  have hfind : (cursor.shift front).findFrom? (node.shift front.length).bodyStart node.closingTag =
      (cursor.findFrom? node.bodyStart node.closingTag).map (front.length + ·) :=
    findFrom?_shift front cursor node.bodyStart node.closingTag
  have htail : (cursor.shift front).tailFrom (node.shift front.length).bodyStart =
      cursor.tailFrom node.bodyStart := tailFrom_shift front cursor node.bodyStart
  have htag : (node.shift front.length).closingTag = node.closingTag := rfl
  have hname : (node.shift front.length).name = node.name := rfl
  unfold closingTagOf
  dsimp only
  rw [htail, htag, hname, hfind]
  split
  · rfl
  · split
    · rfl
    · cases cursor.findFrom? node.bodyStart node.closingTag with
      | none => rfl
      | some offset => rfl

/-- **A body that is read is the same one**, and leaves the cursor at the same place behind
`front`. -/
theorem readBody_shift (front : Bytes) (cursor : Cursor) (node : Node) :
    (cursor.shift front).readBody (node.shift front.length) =
      ((cursor.readBody node).map fun read => (read.1, read.2.shift front)).mapError
        (.shift front.length) := by
  cases hself : node.selfClosing with
  | true =>
    have hself' : (node.shift front.length).selfClosing = true := hself
    rw [readBody_of_selfClosing hself, readBody_of_selfClosing hself']
    rfl
  | false =>
    have hself' : (node.shift front.length).selfClosing = false := hself
    rw [readBody_of_open hself, readBody_of_open hself', closingTagOf_shift]
    cases cursor.closingTagOf node with
    | error fault => rfl
    | ok offset =>
      have hbody : (cursor.shift front).document.slice (node.shift front.length).bodyStart
          (front.length + offset) = cursor.document.slice node.bodyStart offset :=
        slice_shift front cursor node.bodyStart offset
      have hplace : max (cursor.shift front).position
          (front.length + offset + (node.shift front.length).closingTag.length) =
            front.length + max cursor.position (offset + node.closingTag.length) := by
        rw [Nat.add_assoc, ← Nat.add_max_add_left]
        rfl
      simp only [Except.map, Except.mapError, hbody, hplace, setPosition_shift]

/-- **A prolog behind other bytes is skipped in the same way**, by induction on its declarations:
the cursor ends `shift`ed, and the result has its place moved. -/
theorem skipProlog_shift (front : Bytes) (cursor : Cursor) :
    (cursor.shift front).skipProlog.1 = cursor.skipProlog.1.shift front ∧
      (cursor.shift front).skipProlog.2.result =
        cursor.skipProlog.2.result.mapError (.shift front.length) := by
  fun_induction skipProlog cursor with
  | case1 cursor heof =>
    rw [skipProlog_of_eof ((isEof_shift front cursor).trans heof)]
    exact ⟨rfl, rfl⟩
  | case2 cursor heof fault hnext =>
    have hmore : (cursor.shift front).isEof = false := by simpa using heof
    rw [skipProlog_of_error hmore (by rw [nextTag_shift, hnext]; rfl)]
    exact ⟨rfl, rfl⟩
  | case3 cursor heof tag hnext hkind stopped skipped hskip ih =>
    have hmore : (cursor.shift front).isEof = false := by simpa using heof
    rw [hskip] at ih
    rw [skipProlog_of_markup hmore (by rw [nextTag_shift, hnext]; rfl)
      ((kindOf_shift front cursor tag).trans hkind), passTag_shift]
    exact ih
  | case4 cursor heof tag hnext hkind =>
    have hmore : (cursor.shift front).isEof = false := by simpa using heof
    rw [skipProlog_of_tag hmore (by rw [nextTag_shift, hnext]; rfl)
      ((kindOf_shift front cursor tag).symm ▸ hkind)]
    exact ⟨setPosition_shift front cursor tag.start, rfl⟩

end Cursor

/-! ## Tours that are moved -/

/-- A frame with other bytes in front of the document. -/
def Frame.shift (offset : Nat) (frame : Frame) : Frame :=
  { frame with node := frame.node.shift offset }

/-- A finish with other bytes in front of the document. -/
def Finish.shift (front : Bytes) (finish : Finish) : Finish where
  cursor := finish.cursor.shift front
  account := finish.account.shift front.length
  result := finish.result.mapError (.shift front.length)

/-- **The policy that chooses by declarations alone**, `choose (seen.map Node.toDeclaration)`: it
does not see where a node's body starts. -/
def Policy.ofDeclarations (choose : List Declaration → Choice) : Policy := fun seen =>
  choose (seen.map Node.toDeclaration)

/-- Such a policy chooses the same when all nodes are moved, since a `shift` keeps the
declarations. -/
@[simp] theorem Policy.ofDeclarations_shift (choose : List Declaration → Choice) (offset : Nat)
    (seen : List Node) :
    ofDeclarations choose (seen.map (.shift offset)) = ofDeclarations choose seen := by
  rw [ofDeclarations, ofDeclarations, List.map_map]
  rfl

/-- A visit is met with other bytes in front. -/
theorem Account.meet_shift (account : Account) (offset depth : Nat) (node : Node) :
    (account.shift offset).meet depth (node.shift offset) = (account.meet depth node).shift offset := by
  simp [meet, shift, Sight.shift, Node.shift]

namespace Tour

/-- **A tour with other bytes in front of the document**: its cursor, its account and its frames are
moved. -/
def shift (front : Bytes) : Tour → Tour
  | among cursor account frame outer =>
      among (cursor.shift front) (account.shift front.length) (frame.shift front.length)
        (outer.map (.shift front.length))
  | ended finish => ended (finish.shift front)

section Shift

variable (front : Bytes) (choose : List Declaration → Choice) (options : Options) (cursor : Cursor)
  (account : Account)

/-- A node is skipped in the same way. -/
theorem skip_shift (node : Node) (frame : Frame) (outer : List Frame) :
    skip (cursor.shift front) (account.shift front.length) (node.shift front.length)
        (frame.shift front.length) (outer.map (.shift front.length)) =
      (skip cursor account node frame outer).shift front := by
  rw [skip, skip, Cursor.readBody_shift]
  cases cursor.readBody node with
  | error fault => rfl
  | ok read => rfl

/-- A node is left in the same way, by induction on the elements `outer` that are left with it. -/
theorem leave_shift (left : Frame) (closed : Bool) (outer : List Frame) :
    leave (cursor.shift front) (account.shift front.length) (left.shift front.length) closed
        (outer.map (.shift front.length)) =
      (leave cursor account left closed outer).shift front := by
  induction outer generalizing left closed with
  | nil => rfl
  | cons frame outer ih =>
    rw [List.map_cons, leave, leave, show (left.shift front.length).signal = left.signal from rfl]
    cases left.signal with
    | stop => exact ih frame false
    | proceed =>
      cases closed with
      | true => rfl
      | false => exact skip_shift front cursor account left.node frame outer

/-- **A node is visited in the same way**: the choice is the same, and so is what it leads to. -/
theorem visit_shift (maxDepth : Nat) (node : Node) (outer : List Frame) :
    visit (.ofDeclarations choose) maxDepth (cursor.shift front) (account.shift front.length)
        (node.shift front.length) (outer.map (.shift front.length)) =
      (visit (.ofDeclarations choose) maxDepth cursor account node outer).shift front := by
  have hchoice : Policy.ofDeclarations choose
      (node.shift front.length :: (account.shift front.length).seen) =
        Policy.ofDeclarations choose (node :: account.seen) :=
    Policy.ofDeclarations_shift choose front.length (node :: account.seen)
  have hdepth : (outer.map (Frame.shift front.length)).length = outer.length := List.length_map _
  -- from here on the two visits have one choice, and differ in places only
  generalize hchosen : Policy.ofDeclarations choose (node :: account.seen) = choice at hchoice
  cases huse : choice.use with
  | ignore =>
    rw [visit_of_ignore hchosen huse, visit_of_ignore hchoice huse, hdepth, Account.meet_shift]
    exact leave_shift front _ _ ⟨node, choice.signal⟩ false outer
  | readBody =>
    have hmoved := Cursor.readBody_shift front cursor node
    cases hread : cursor.readBody node with
    | error fault =>
      rw [hread] at hmoved
      rw [visit_of_unread (hchosen ▸ huse) hread, visit_of_unread (hchoice ▸ huse) hmoved, hdepth,
        Account.meet_shift]
      rfl
    | ok read =>
      rw [hread] at hmoved
      rw [visit_of_read hchosen huse hread, visit_of_read hchoice huse hmoved, hdepth,
        Account.meet_shift]
      exact leave_shift front read.2 ((account.meet (outer.length + 1) node).read read.1)
        ⟨node, choice.signal⟩ true outer
  | descend =>
    have hsame : (node.shift front.length).selfClosing = node.selfClosing := rfl
    cases hself : node.selfClosing with
    | true =>
      rw [visit_of_childless hchosen huse hself, visit_of_childless hchoice huse (hsame.trans hself),
        hdepth, Account.meet_shift]
      exact leave_shift front _ _ ⟨node, choice.signal⟩ true outer
    | false =>
      by_cases hfull : maxDepth ≤ outer.length + 1
      · rw [visit_of_full (hchosen ▸ huse) hself hfull, visit_of_full (hchoice ▸ huse)
          (hsame.trans hself) (hdepth.symm ▸ hfull), hdepth, Account.meet_shift]
        rfl
      · rw [visit_of_room hchosen huse hself hfull, visit_of_room hchoice huse (hsame.trans hself)
          (hdepth.symm ▸ hfull), hdepth, Account.meet_shift]
        rfl

/-- A tag is entered in the same way. -/
theorem enter_shift (tag : Tag) (outer : List Frame) :
    enter (.ofDeclarations choose) options (cursor.shift front) (account.shift front.length)
        (tag.shift front.length) (outer.map (.shift front.length)) =
      (enter (.ofDeclarations choose) options cursor account tag outer).shift front := by
  rw [enter, enter, Cursor.decodeTag_shift, Cursor.passTag_shift]
  cases cursor.decodeTag options.overflow tag with
  | error fault => rfl
  | ok node => exact visit_shift front choose (cursor.passTag tag) account options.maxDepth node outer

/-- **A step is the same step** with other bytes in front of the document: `shift` goes through
`step`. -/
theorem step_shift (tour : Tour) :
    step (.ofDeclarations choose) options (tour.shift front) =
      (step (.ofDeclarations choose) options tour).shift front := by
  cases tour with
  | ended finish => rfl
  | among cursor account frame outer =>
    rw [shift]
    cases hnext : cursor.nextTag with
    | error fault =>
      have hnext' : (cursor.shift front).nextTag = .error (fault.shift front.length) := by
        rw [Cursor.nextTag_shift, hnext]
        rfl
      rw [step_of_error hnext, step_of_error hnext']
      rfl
    | ok tag =>
      have hnext' : (cursor.shift front).nextTag = .ok (tag.shift front.length) := by
        rw [Cursor.nextTag_shift, hnext]
        rfl
      -- the moved tag has the same kind, so both steps go the same way
      have hsame := Cursor.kindOf_shift front cursor tag
      cases hkind : cursor.kindOf tag with
      | closing =>
        rw [step_of_closing hnext hkind, step_of_closing hnext' (hsame.trans hkind),
          Cursor.passTag_shift]
        exact leave_shift front _ account frame true outer
      | markup =>
        rw [step_of_markup hnext hkind, step_of_markup hnext' (hsame.trans hkind),
          Cursor.passTag_shift]
        rfl
      | element =>
        rw [step_of_element hnext hkind, step_of_element hnext' (hsame.trans hkind)]
        exact enter_shift front choose options cursor account tag (frame :: outer)

/-- **A tour is the same tour** with other bytes in front of the document, by induction on its
steps: `shift` goes through `run`. -/
theorem run_shift (tour : Tour) :
    (tour.shift front).run (.ofDeclarations choose) options =
      (tour.run (.ofDeclarations choose) options).shift front := by
  induction tour using Tour.run.induct (.ofDeclarations choose) options with
  | case1 finish => rw [shift, run_ended, run_ended]
  | case2 cursor account frame outer ih => rw [← run_step, step_shift, ih, run_step]

/-- A tour begins in the same way. -/
theorem start_shift :
    start (.ofDeclarations choose) options (cursor.shift front) =
      (start (.ofDeclarations choose) options cursor).shift front := by
  rw [start, start, Cursor.isEof_shift, Cursor.nextTag_shift]
  split
  · rfl
  · split
    · rfl
    · cases cursor.nextTag with
      | error fault => rfl
      | ok tag =>
        simp only [Except.map, Except.mapError, Cursor.kindOf_shift]
        split
        · rfl
        · exact enter_shift front choose options cursor .blank tag []

end Shift

end Tour

/-- **The tour of a document is the same** with other bytes in front of where it begins: its
`Finish` is moved, whatever stands in `front`. -/
theorem Policy.tour_shift (front : Bytes) (choose : List Declaration → Choice) (options : Options)
    (cursor : Cursor) :
    (ofDeclarations choose).tour options (cursor.shift front) =
      ((ofDeclarations choose).tour options cursor).shift front := by
  obtain ⟨hcursor, hresult⟩ := Cursor.skipProlog_shift front cursor
  rw [tour, tour, hresult, hcursor, Tour.start_shift, Tour.run_shift]
  cases cursor.skipProlog.2.result with
  | error fault => rfl
  | ok done => rfl

/-! ## Prologs -/

/-- **A block of a prolog**: a text without a `<`, and a declaration behind it, from `<?` or `<!` to
the first `>`. -/
structure PrologBlock where
  /-- The text in front of the declaration. -/
  text : Bytes
  /-- The byte behind the `<` of the declaration. -/
  mark : UInt8
  /-- What stands between that byte and the `>`. -/
  content : Bytes
  /-- The text opens no tag. -/
  text_clear : Byte.lessThan ∉ text
  /-- The byte is the one of a processing instruction or of a declaration. -/
  mark_eq : mark = Byte.question ∨ mark = Byte.bang
  /-- The declaration ends with its first `>`. -/
  content_clear : Byte.greaterThan ∉ content

namespace PrologBlock

/-- A block as it is written. -/
def render (block : PrologBlock) : Bytes :=
  block.text ++ Byte.lessThan :: block.mark :: (block.content ++ [Byte.greaterThan])

/-- Blocks as they are written, one behind the other. -/
def renderAll (blocks : List PrologBlock) : Bytes := (blocks.map render).flatten

@[simp] theorem renderAll_nil : renderAll [] = [] := rfl

@[simp] theorem renderAll_cons (block : PrologBlock) (blocks : List PrologBlock) :
    renderAll (block :: blocks) = block.render ++ renderAll blocks := rfl

/-- The first `>` behind the `<` of a block is its last byte. -/
theorem greaterThan_not_mem (block : PrologBlock) :
    Byte.greaterThan ∉ block.mark :: block.content := by
  rw [List.mem_cons]
  rintro (heq | hm)
  · rcases block.mark_eq with hmark | hmark
    · exact absurd (heq.trans hmark) (by decide)
    · exact absurd (heq.trans hmark) (by decide)
  · exact block.content_clear hm

end PrologBlock

/-- **A block at the front of a document is skipped**, and the prolog goes on behind it, as that of
the document does with `block.render` in front of it. -/
theorem Cursor.skipProlog_of_block (block : PrologBlock) (document : Bytes) :
    (ofDocument (block.render ++ document)).skipProlog.1 =
        ((ofDocument document).shift block.render).skipProlog.1 ∧
      (ofDocument (block.render ++ document)).skipProlog.2.result =
        ((ofDocument document).shift block.render).skipProlog.2.result := by
  have hahead : (ofDocument (block.render ++ document)).remaining = block.text ++
      Byte.lessThan :: (block.mark :: block.content ++ Byte.greaterThan :: document) := by
    simp [remaining, tailFrom, PrologBlock.render]
  have hnext := nextTag_of_remaining hahead block.text_clear block.greaterThan_not_mem
  have hkind := (kindOf_tagBehind hahead rfl).trans (if_pos block.mark_eq)
  have hmore : (ofDocument (block.render ++ document)).isEof = false := by
    simp [isEof, PrologBlock.render]
  rw [skipProlog_of_markup hmore hnext hkind]
  -- behind the block, the cursor is at the front of the document
  have hpassed : (ofDocument (block.render ++ document)).passTag
      ((ofDocument (block.render ++ document)).tagBehind block.text (block.mark :: block.content)) =
        (ofDocument document).shift block.render := by
    apply ext_of_position
    · rfl
    · rw [(remaining_passTag_tagBehind hahead).2]
      simp [shift, PrologBlock.render]
      omega
  rw [hpassed]
  exact ⟨rfl, rfl⟩

/-- **Blocks are skipped one behind the other**, by induction on them, and the prolog of the
document goes on behind the last one, with `PrologBlock.renderAll blocks` in front. -/
theorem Cursor.skipProlog_of_blocks (blocks : List PrologBlock) (document : Bytes) :
    (ofDocument (PrologBlock.renderAll blocks ++ document)).skipProlog.1 =
        ((ofDocument document).shift (PrologBlock.renderAll blocks)).skipProlog.1 ∧
      (ofDocument (PrologBlock.renderAll blocks ++ document)).skipProlog.2.result =
        ((ofDocument document).shift (PrologBlock.renderAll blocks)).skipProlog.2.result := by
  induction blocks with
  | nil =>
    rw [PrologBlock.renderAll_nil, List.nil_append, shift_nil]
    exact ⟨rfl, rfl⟩
  | cons block blocks ih =>
    obtain ⟨hcursor, hresult⟩ := skipProlog_of_block block (PrologBlock.renderAll blocks ++ document)
    -- what is skipped behind the first block is skipped in the same way without it
    obtain ⟨hcursor₁, hresult₁⟩ := skipProlog_shift block.render
      (ofDocument (PrologBlock.renderAll blocks ++ document))
    obtain ⟨hcursor₂, hresult₂⟩ := skipProlog_shift block.render
      ((ofDocument document).shift (PrologBlock.renderAll blocks))
    rw [PrologBlock.renderAll_cons, List.append_assoc, ← shift_shift]
    refine ⟨?_, ?_⟩
    · rw [hcursor, hcursor₁, ih.1, hcursor₂]
    · rw [hresult, hresult₁, ih.2, hresult₂]

/-- **The tour of a document behind a prolog** is the tour of the document, moved by
`PrologBlock.renderAll blocks`. -/
theorem Policy.tour_prolog (choose : List Declaration → Choice) (options : Options)
    (blocks : List PrologBlock) (document : Bytes) :
    (ofDeclarations choose).tour options
        (.ofDocument (PrologBlock.renderAll blocks ++ document)) =
      ((ofDeclarations choose).tour options (.ofDocument document)).shift
        (PrologBlock.renderAll blocks) := by
  obtain ⟨hcursor, hresult⟩ := Cursor.skipProlog_of_blocks blocks document
  rw [← tour_shift, tour, tour, hcursor, hresult]

/-- **The prolog is transparent.** Let a policy choose by the declarations seen so far. Whatever
`blocks` of text and declarations stand in front of a document, well formed or not, the parse of
`PrologBlock.renderAll blocks ++ document` makes the same visits at the same depths, with all places
larger by the length of the prolog: `ended'.sights = ended.sights.map (.shift …)`. It reads the same
bodies, it comes to the same result, where a fault only has its place moved,
`result.mapError (.shift …)`, and it ends at the same place behind the prolog. -/
theorem parse_prolog (choose : List Declaration → Choice) (options : Options)
    (blocks : List PrologBlock) {document : Bytes} {fuel fuel' : Nat}
    (hfuel : document.length < fuel)
    (hfuel' : (PrologBlock.renderAll blocks ++ document).length < fuel') :
    ∃ ended result ended',
      (Policy.ofDeclarations choose).parse fuel (.ofDocument document options) =
        some (ended, result) ∧
      (Policy.ofDeclarations choose).parse fuel'
          (.ofDocument (PrologBlock.renderAll blocks ++ document) options) =
        some (ended', result.mapError (.shift (PrologBlock.renderAll blocks).length)) ∧
      ended'.sights = ended.sights.map (.shift (PrologBlock.renderAll blocks).length) ∧
      ended'.bodies = ended.bodies ∧
      ended'.reader.position = (PrologBlock.renderAll blocks).length + ended.reader.position ∧
      ended.reader.scopes = [] ∧ ended'.reader.scopes = [] := by
  obtain ⟨ended, result, hrun, hscopes, htour⟩ :=
    parse_eq_tour (.ofDeclarations choose) options hfuel
  obtain ⟨ended', result', hrun', hscopes', htour'⟩ :=
    parse_eq_tour (.ofDeclarations choose) options hfuel'
  have hmoved := Policy.tour_prolog choose options blocks document
  rw [htour, htour'] at hmoved
  obtain ⟨hcursor, haccount, rfl⟩ := Finish.mk.inj hmoved
  refine ⟨ended, result, ended', hrun, hrun', ?_, ?_, ?_, hscopes, hscopes'⟩
  · exact congrArg Account.sights haccount
  · exact congrArg Account.bodies haccount
  · exact congrArg Cursor.position hcursor

/-- The declarations `<?x>` and, behind a line break, `<!d>`. -/
def declarations : List PrologBlock :=
  [⟨[], Byte.question, [0x78], nofun, .inl rfl, by decide⟩,
    ⟨[0x0A], Byte.bang, [0x64], by decide, .inr rfl, by decide⟩]

/-- The policy that descends into the first node and reads the bodies of the others. -/
def readLater : List Declaration → Choice
  | [_] => ⟨.descend, .proceed⟩
  | _ => ⟨.readBody, .proceed⟩

/-- In `<a><b>x</b></a>`, with or without declarations in front of it, the body of `b` is read. -/
theorem parse_prolog_declarations :
    ∃ ended result ended',
      (Policy.ofDeclarations readLater).parse 25 (.ofDocument documentWithBody .lenient) =
        some (ended, result) ∧
      (Policy.ofDeclarations readLater).parse 25
          (.ofDocument (PrologBlock.renderAll declarations ++ documentWithBody) .lenient) =
        some (ended', result.mapError (.shift 9)) ∧
      ended'.sights = ended.sights.map (.shift 9) ∧ ended'.bodies = ended.bodies ∧
      ended'.reader.position = 9 + ended.reader.position ∧
      ended.reader.scopes = [] ∧ ended'.reader.scopes = [] := by
  have hfuel : documentWithBody.length < 25 := by decide
  have hfuel' : (PrologBlock.renderAll declarations ++ documentWithBody).length < 25 := by decide
  exact parse_prolog readLater .lenient declarations hfuel hfuel'

end TagWalk
