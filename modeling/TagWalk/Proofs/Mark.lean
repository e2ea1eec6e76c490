import TagWalk.Proofs.Body
import TagWalk.Proofs.Grounds
import TagWalk.Proofs.Progress

/-! # The mark of closed nodes

A reader remembers one offset, that of the body of the node whose closing tag was passed last, and a
child that carries this mark is not searched for. Any body that is read, any descent and any child
that is skipped moves the mark, so that it says nothing by itself. What makes it trustworthy is the
order of the document, and that the events of a trace tell all there is to know about it.

* **`Moment.markAfter`** — the mark, told from the events alone.
* **`Moment.Consumes`** — a closing tag of a node is consumed at a moment.
* **`TellsMark.closed`** — at each moment of every run the mark is what the events tell, and where they
  speak of a closing tag, it stands in the document. -/

namespace TagWalk

variable {ι σ ε α : Type}

namespace Moment

/-! ## The mark, told from the events -/

/-- The node that an event marks as closed: one whose body was read or skipped, whose children were
closed, or that closes itself. -/
def marked? (moment : Moment ι ε) : Option Node :=
  match moment.event with
  | .body node (.ok _) | .skip node (.ok _) | .close node _ => some node
  | .descended parent _ => if parent.selfClosing then some parent else none
  | _ => none

/-- Whether an event drops the mark, as a reset and the beginning of a parse do. -/
def dropsMark (moment : Moment ι ε) : Bool :=
  match moment.event with
  | .reset | .parse _ => true
  | _ => false

/-- **The mark after a moment**, from the mark before it: that of the node which is `marked?`, or
none if the event `dropsMark`, or the old one. -/
def markAfter (mark : Option Nat) (moment : Moment ι ε) : Option Nat :=
  match moment.marked? with
  | some node => some node.bodyStart
  | none => if moment.dropsMark then none else mark

/-- An event that marks a node sets the mark to its body. -/
theorem markAfter_of_marked {moment : Moment ι ε} {node : Node} (h : moment.marked? = some node)
    (mark : Option Nat) : moment.markAfter mark = some node.bodyStart := by
  rw [markAfter, h]

/-- **A mark was set by some moment**, if it was not there before:
`moments = front ++ moment :: back`, and the moment marks a node whose body starts at `place`. -/
theorem exists_marked_of_foldl {moments : List (Moment ι ε)} {mark : Option Nat} {place : Nat}
    (h : moments.foldl markAfter mark = some place) :
    mark = some place ∨ ∃ front moment back node, moments = front ++ moment :: back ∧
      moment.marked? = some node ∧ node.bodyStart = place := by
  induction moments generalizing mark with
  | nil => exact .inl h
  | cons moment moments ih =>
    -- the mark comes from a later moment, from this one, or from before it
    rcases ih h with hmark | ⟨front, other, back, node, rfl, hnode, hplace⟩
    · rw [markAfter] at hmark
      split at hmark
      · rename_i node hnode
        exact .inr ⟨[], moment, moments, node, rfl, hnode, Option.some.inj hmark⟩
      · split at hmark
        · cases hmark
        · exact .inl hmark
    · exact .inr ⟨moment :: front, other, back, node, rfl, hnode, hplace⟩

/-! ## Closing tags that are consumed -/

/-- **A closing tag of a node is consumed at a moment**, and ends at an offset: the node's body is
read, with `node.closingTag` behind it in the document, or a closing tag `</…>` ends the enumeration
of the node's children. -/
inductive Consumes (document : Bytes) (node : Node) (moment : Moment ι ε) : Nat → Prop
  /-- The body is read. -/
  | read {body : Bytes} (event_eq : moment.event = .body node (.ok body))
      (stands : body ++ node.closingTag <+: document.drop node.bodyStart) :
      Consumes document node moment (node.bodyStart + body.length + node.closingTag.length)
  /-- The enumeration of the children ends. -/
  | closed {tag : Tag} (event_eq : moment.event = .close node tag)
      (start_eq : document[tag.start]? = some Byte.lessThan)
      (slash_eq : document[tag.start + 1]? = some Byte.slash)
      (stop_eq : document[tag.stop]? = some Byte.greaterThan) :
      Consumes document node moment (tag.stop + 1)

/-- **A moment is truthful** when the closing tag that its event speaks of stands in the document,
`Consumes document node stop`, and the reader is past it. -/
def IsTruthful (document : Bytes) (moment : Moment ι ε) : Prop :=
  ∀ node, node.selfClosing = false →
    ((∃ body, moment.event = .body node (.ok body)) ∨ ∃ tag, moment.event = .close node tag) →
      ∃ stop, moment.Consumes document node stop ∧ stop ≤ moment.reader.position

/-- Whether an event speaks of no closing tag: it is neither a body that was read nor a `.close`. -/
def isSilent (moment : Moment ι ε) : Bool :=
  match moment.event with
  | .body _ (.ok _) | .close .. => false
  | _ => true

/-- A silent event is truthful. -/
theorem isTruthful_of_isSilent {document : Bytes} {moment : Moment ι ε}
    (h : moment.isSilent = true) : moment.IsTruthful document := by
  rintro node - (⟨body, hevent⟩ | ⟨tag, hevent⟩)
  · simp [isSilent, hevent] at h
  · simp [isSilent, hevent] at h

/-- Whether an event speaks of no closing tag, and leaves the mark, since it neither marks a node
nor drops the mark. -/
def isPlain (moment : Moment ι ε) : Bool :=
  match moment.event with
  | .log _ | .remark _ | .parsed _ | .descend .. | .visit .. | .visited .. => true
  | .body _ (.error _) | .skip _ (.error _) => true
  | .descended parent _ => !parent.selfClosing
  | _ => false

/-- A plain event speaks of no closing tag. -/
theorem isSilent_of_isPlain {moment : Moment ι ε} (h : moment.isPlain = true) :
    moment.isSilent = true := by
  unfold isPlain at h
  unfold isSilent
  split
  · simp_all
  · simp_all
  · rfl

/-- A plain event leaves the mark. -/
theorem markAfter_of_isPlain {moment : Moment ι ε} (h : moment.isPlain = true) (mark : Option Nat) :
    moment.markAfter mark = mark := by
  obtain ⟨level, reader, event⟩ := moment
  cases event with
  | reset => cases h
  | parse => cases h
  | close => cases h
  | body node result =>
    cases result with
    | error fault => rfl
    | ok body => cases h
  | skip node result =>
    cases result with
    | error fault => rfl
    | ok body => cases h
  -- the end of a descent marks a node that closes itself, and no other
  | descended parent result =>
    have hopen : parent.selfClosing = false := by simpa [isPlain] using h
    simp [markAfter, marked?, dropsMark, hopen]
  | _ => rfl

/-- Plain moments leave the mark, however many there are. -/
theorem foldl_markAfter_of_isPlain {moments : List (Moment ι ε)}
    (h : ∀ moment ∈ moments, moment.isPlain = true) (mark : Option Nat) :
    moments.foldl markAfter mark = mark := by
  induction moments with
  | nil => rfl
  | cons moment moments ih =>
    rw [List.foldl_cons, markAfter_of_isPlain (h moment List.mem_cons_self)]
    exact ih fun other hm => h other (List.mem_cons_of_mem _ hm)

/-- A closing tag that ends an enumeration is consumed there, whatever name it bears. -/
theorem isTruthful_close {reader : Reader} {parent : Node} {tag : Tag} (level : Nat)
    (hnext : reader.cursor.nextTag = .ok tag) (hkind : reader.cursor.kindOf tag = .closing) :
    (⟨level, (reader.passTag tag).markClosed parent, .close parent tag⟩ : Moment ι ε).IsTruthful
      reader.document := by
  rintro node - (⟨body, hevent⟩ | ⟨other, hevent⟩)
  · cases hevent
  · cases hevent
    obtain ⟨hstart, hstop⟩ := Cursor.document_of_nextTag hnext
    have hslash : reader.document[tag.start + 1]? = some Byte.slash := by
      rw [Cursor.kindOf, Cursor.byteAt?] at hkind
      exact TagKind.eq_slash_of_closing hkind
    exact ⟨tag.stop + 1, .closed rfl hstart hslash hstop,
      Nat.le_of_eq (Reader.position_passTag hnext).symm⟩

end Moment

/-! ## The mark of every run -/

/-- **A stretch tells the mark**: at each of its moments, and at its end, the mark is what
`markAfter` makes of the moments so far, and they are truthful. -/
structure TellsMark (before : Reader) (moments : List (Moment ι ε)) (after : Reader) : Prop where
  /-- The document stays. -/
  document_eq : after.document = before.document
  /-- The moments are truthful. -/
  truthful : ∀ moment ∈ moments, moment.IsTruthful before.document
  /-- The mark at each moment. -/
  mark : Moment.Everywhere (fun front moment _ => moment.reader.lastClosed =
    (front ++ [moment]).foldl Moment.markAfter before.lastClosed) moments
  /-- The mark at the end. -/
  lastClosed_eq : after.lastClosed = moments.foldl Moment.markAfter before.lastClosed

namespace TellsMark

variable {before between after : Reader} {first second moments : List (Moment ι ε)}

/-- One stretch after another: the mark at the end of the first is that before the second. -/
theorem append (h₁ : TellsMark before first between) (h₂ : TellsMark between second after) :
    TellsMark before (first ++ second) after := by
  refine ⟨h₂.document_eq.trans h₁.document_eq, ?_, ?_, ?_⟩
  · intro moment hm
    rcases List.mem_append.mp hm with hm | hm
    · exact h₁.truthful moment hm
    · exact h₁.document_eq ▸ h₂.truthful moment hm
  · refine Moment.everywhere_append.mpr ⟨h₁.mark, h₂.mark.imp fun front moment _ hmark => ?_⟩
    rw [List.append_assoc, List.foldl_append, ← h₁.lastClosed_eq]
    exact hmark
  · rw [List.foldl_append, ← h₁.lastClosed_eq]
    exact h₂.lastClosed_eq

/-- A single moment. -/
theorem of_moment {moment : Moment ι ε} (hdocument : moment.reader.document = before.document)
    (htruthful : moment.IsTruthful before.document)
    (hmark : moment.reader.lastClosed = moment.markAfter before.lastClosed) :
    TellsMark before [moment] moment.reader := by
  refine ⟨hdocument, ?_, ?_, hmark⟩
  · intro other hm
    rw [List.mem_singleton.mp hm]
    exact htruthful
  · rw [Moment.everywhere_cons]
    exact ⟨hmark, Moment.everywhere_nil⟩

/-- A single plain moment. -/
theorem of_isPlain {moment : Moment ι ε} (h : moment.isPlain = true)
    (hdocument : moment.reader.document = before.document)
    (hmark : moment.reader.lastClosed = before.lastClosed) :
    TellsMark before [moment] moment.reader :=
  of_moment hdocument (Moment.isTruthful_of_isSilent (Moment.isSilent_of_isPlain h))
    (hmark.trans (Moment.markAfter_of_isPlain h _).symm)

/-- Logged records. -/
theorem of_logs (level : Nat) (records : List LogRecord) (hdocument : after.document = before.document)
    (hmark : after.lastClosed = before.lastClosed) :
    TellsMark before (Moment.logs level after records : List (Moment ι ε)) after := by
  induction records generalizing before with
  | nil => exact ⟨hdocument, fun _ hm => absurd hm List.not_mem_nil, Moment.everywhere_nil, hmark⟩
  | cons record records ih =>
    have hfirst : TellsMark before [(⟨level, after, .log record⟩ : Moment ι ε)] after :=
      of_isPlain rfl hdocument hmark
    exact hfirst.append (ih rfl rfl)

/-- **Reading a body** tells the mark, whoever reads it: a visitor, with a `.body` event, or the
reader, with a `.skip`. -/
theorem of_readBody (level : Nat) (reader : Reader) (node : Node)
    {event : Except Fault Bytes → Event ι ε}
    (hplain : ∀ shown fault, (⟨level, shown, event (.error fault)⟩ : Moment ι ε).isPlain = true)
    (hmarked : ∀ shown body, (⟨level, shown, event (.ok body)⟩ : Moment ι ε).marked? = some node)
    (htruthful : ∀ body cursor, reader.cursor.readBody node = .ok (body, cursor) →
      (⟨level, { reader with cursor }.markClosed node, event (.ok body)⟩ :
        Moment ι ε).IsTruthful reader.document) :
    TellsMark reader
      (Moment.reported level (reader.readBody node).1 (reader.readBody node).2 event)
      (reader.readBody node).1 := by
  cases hread : reader.cursor.readBody node with
  | error fault =>
    obtain ⟨hreader, hresult⟩ := Reader.readBody_of_error hread
    rw [Moment.reported, hreader, hresult]
    exact (of_logs level _ rfl rfl).append (of_isPlain (hplain _ _) rfl rfl)
  | ok read =>
    obtain ⟨body, cursor⟩ := read
    rw [Reader.readBody_of_ok hread]
    exact of_moment (Cursor.document_readBody hread).1 (htruthful body cursor hread)
      (Moment.markAfter_of_marked (hmarked _ _) _).symm

/-- Work in a scope tells the mark when the work inside does; the records of the scope are plain. -/
theorem of_scoped {level : Nat} {element : Option Node} {result : Except Fault Unit}
    (h : Course.Scoped TellsMark level element before moments after result) :
    TellsMark before moments after := by
  cases h with
  | refused full => exact of_isPlain rfl rfl rfl
  | @entered inner worked _ room work =>
    have henter : TellsMark before [(⟨level, before.pushScope element,
        .log (.enterScope (Scope.of element).element before.depth)⟩ : Moment ι ε)]
        (before.pushScope element) := of_isPlain rfl rfl rfl
    have hleave : TellsMark worked [(⟨level, worked.leaveScope.1, .log worked.leaveScope.2⟩ :
        Moment ι ε)] worked.leaveScope.1 :=
      of_isPlain rfl (congrArg Cursor.document worked.cursor_leaveScope) worked.lastClosed_leaveScope
    exact henter.append (work.append hleave)

/-- The work of a parse tells the mark when the work inside does. -/
theorem of_rooted {level : Nat} {result : Except Fault Unit}
    (h : Course.Rooted TellsMark level before moments after result) :
    TellsMark before moments after := by
  have hdocument : (Course.behindProlog before).document = before.document :=
    before.cursor.document_skipProlog
  cases h with
  | broken => exact of_logs level _ hdocument rfl
  | empty => exact of_logs level _ hdocument rfl
  | element _ _ work => exact (of_logs level _ hdocument rfl).append (of_scoped work)

/-- **All work tells the mark**: `TellsMark` is a closed course. -/
theorem closed : Course.Closed (TellsMark : Course ι ε) where
  nil reader := of_logs 0 [] rfl rfl
  append := append
  remark level reader note := of_isPlain rfl rfl rfl
  reset level reader := of_moment rfl (Moment.isTruthful_of_isSilent rfl) rfl
  readBody level reader node := by
    refine of_readBody level reader node (fun _ _ => rfl) (fun _ _ => rfl) ?_
    -- the closing tag stands behind the body, and the cursor is past it
    rintro body cursor hread other hopen (⟨_, hevent⟩ | ⟨_, hevent⟩)
    · cases hevent
      obtain ⟨hstands, hle⟩ := Cursor.prefix_of_readBody hopen hread
      exact ⟨_, .read rfl hstands, hle⟩
    · cases hevent
  skip level reader node :=
    of_readBody level reader node (fun _ _ => rfl) (fun _ _ => rfl)
      fun _ _ _ => Moment.isTruthful_of_isSilent rfl
  skipMarkup level _ _ _ _ := of_isPlain rfl rfl rfl
  close level _ _ parent next kind := of_moment rfl (Moment.isTruthful_close level next kind) rfl
  broken level _ _ _ _ _ _ := of_logs level _ rfl rfl
  visit level reader after tag node inner visitor result _ _ _ work := by
    have hlogs : TellsMark reader (Moment.logs level (reader.passTag tag)
        (reader.openNode tag).2.log : List (Moment ι ε)) (reader.passTag tag) :=
      of_logs level _ rfl rfl
    have hvisit : TellsMark (reader.passTag tag) [(⟨level, reader.passTag tag,
        .visit visitor node tag reader.position⟩ : Moment ι ε)] (reader.passTag tag) :=
      of_isPlain rfl rfl rfl
    have hvisited : TellsMark after [(⟨level, after, .visited node result⟩ : Moment ι ε)] after :=
      of_isPlain rfl rfl rfl
    exact hlogs.append (hvisit.append (work.append hvisited))
  descendEmpty level reader parent visitor closed := by
    have hdescend : TellsMark reader [(⟨level, reader, .descend parent visitor⟩ : Moment ι ε)]
        reader := of_isPlain rfl rfl rfl
    -- the end of this descent is the event that marks a node that closes itself
    have hmarked : (⟨level, reader.markClosed parent, .descended parent (.ok ())⟩ :
        Moment ι ε).marked? = some parent := if_pos closed
    exact hdescend.append (of_moment rfl (Moment.isTruthful_of_isSilent rfl)
      (Moment.markAfter_of_marked hmarked _).symm)
  descend level reader after parent inner result visitor notClosed work := by
    have hdescend : TellsMark reader [(⟨level, reader, .descend parent visitor⟩ : Moment ι ε)]
        reader := of_isPlain rfl rfl rfl
    have hdescended : TellsMark after [(⟨level, after, .descended parent result⟩ : Moment ι ε)]
        after := of_isPlain (by simp [Moment.isPlain, notClosed]) rfl rfl
    exact hdescend.append ((of_scoped work).append hdescended)
  parse level reader after inner result visitor work := by
    have hparse : TellsMark reader [(⟨level, reader.dropScopes, .parse visitor⟩ : Moment ι ε)]
        reader.dropScopes :=
      of_moment rfl (Moment.isTruthful_of_isSilent rfl) rfl
    have hparsed : TellsMark after [(⟨level, after, .parsed result⟩ : Moment ι ε)] after :=
      of_isPlain rfl rfl rfl
    exact hparse.append ((of_rooted work).append hparsed)

end TellsMark

end TagWalk
