import TagWalk.Proofs.Behind
import TagWalk.Proofs.FlatScan
import TagWalk.Proofs.RoundTrip
import TagWalk.Proofs.Source

/-! # Faithful nodes

Whatever visitors do to a reader, the nodes that they are handed show the document: each is what one
tag of it says, the tag is the next one from where the reader looked for it, and it opens an element.
Closing tags, comments and processing instructions are sorted out before a node is made.

* **`IsFaithful`** — a node shows its tag.
* **`Course.closed_of_visits`** — what holds of every visit as it is made holds of all that happens.
* **`Cursor.PassesMarkup`** — how a prolog brings a cursor to where the root element is looked for.
* **`faithful_of_run`** — every node of every run is faithful, and the reader stands where its body
  starts. -/

namespace TagWalk

variable {ι σ ε α : Type}

/-! ## Names -/

/-- The first piece stands at the front: `(bytes.pieces separator).1 <+: bytes`. -/
theorem Bytes.pieces_isPrefix (separator : UInt8) (bytes : Bytes) :
    (bytes.pieces separator).1 <+: bytes := by
  induction bytes with
  | nil => exact List.nil_prefix
  | cons byte rest ih =>
    by_cases hbyte : byte = separator
    · subst hbyte
      rw [pieces_separator]
      exact List.nil_prefix
    · rw [pieces_cons_of_ne hbyte]
      exact List.cons_prefix_cons.mpr ⟨rfl, ih⟩

/-- **The name of a declaration stands at the front of its text**: `nameIn text <+: text`, as the
slash is stripped from the other end. -/
theorem Declaration.nameIn_isPrefix (text : Bytes) : nameIn text <+: text := by
  refine (Bytes.pieces_isPrefix _ _).trans ?_
  unfold stripSlash
  split
  · exact List.dropLast_prefix text
  · exact List.prefix_rfl

/-- A tag that opens an element has neither `/`, `?` nor `!` behind its `<`. -/
theorem TagKind.ne_of_element {byte : UInt8} (h : ofByte? (some byte) = .element) :
    byte ≠ Byte.slash ∧ byte ≠ Byte.question ∧ byte ≠ Byte.bang := by
  refine ⟨?_, ?_, ?_⟩
  all_goals
    rintro rfl
    exact absurd h (by decide)

/-! ## Nodes and their tags -/

/-- **A node shows its tag**: the next tag of the document at or after `soughtFrom`, which opens an
element, and whose text is decoded into the node. The tag ends with the first `>` behind its `<`. -/
structure IsFaithful (document : Bytes) (overflow : Overflow) (soughtFrom : Nat) (node : Node)
    (tag : Tag) : Prop extends IsOpened document node tag where
  /-- The tag lies at or after the offset. -/
  soughtFrom_le : soughtFrom ≤ tag.start
  /-- No other tag begins before it. -/
  first : ∀ i, soughtFrom ≤ i → i < tag.start → document[i]? ≠ some Byte.lessThan
  /-- It ends with the first `>`. -/
  within : ∀ i, tag.start < i → i < tag.stop → document[i]? ≠ some Byte.greaterThan
  /-- The bytes between its brackets are decoded into the node. -/
  decoded : (Declaration.decode overflow tag.start
    (document.slice (tag.start + 1) tag.stop)).result = .ok node.toDeclaration
  /-- The node has a name. -/
  name_ne_nil : node.name ≠ []
  /-- There is no space in it. -/
  space_not_mem_name : Byte.space ∉ node.name
  /-- There is no `>` in it. -/
  greaterThan_not_mem_name : Byte.greaterThan ∉ node.name
  /-- It does not begin as closing tags, processing instructions and comments do. -/
  head?_name : ∀ byte, node.name.head? = some byte →
    byte ≠ Byte.slash ∧ byte ≠ Byte.question ∧ byte ≠ Byte.bang

/-- A byte of a node's name stands behind the `<` of the tag it is opened from, and before its `>`:
byte `i` of the name is byte `tag.start + 1 + i` of the document. -/
theorem Reader.getElem?_of_openNode {reader : Reader} {tag : Tag} {node : Node}
    (hnode : (reader.openNode tag).2.result = .ok node) {i : Nat} {byte : UInt8}
    (hbyte : node.name[i]? = some byte) :
    tag.start + 1 + i < tag.stop ∧ reader.document[tag.start + 1 + i]? = some byte := by
  have hdecoded := (Cursor.decodeTag_eq_ok_iff.mp hnode).1
  -- the name is the front of what stands between the brackets
  have hprefix : node.name <+: reader.document.slice (tag.start + 1) tag.stop := by
    rw [(Declaration.result_decode_eq_ok_iff.mp hdecoded).2.2]
    exact Declaration.nameIn_isPrefix _
  obtain ⟨hlt, heq⟩ := List.getElem?_eq_some_iff.mp hbyte
  have hslice := List.prefix_iff_getElem?.mp hprefix i hlt
  rw [heq, Bytes.slice, List.getElem?_take, List.getElem?_drop] at hslice
  split at hslice
  · exact ⟨by omega, hslice⟩
  · cases hslice

/-- **A node is faithful to the tag it is opened from**, sought from where the reader stood. -/
theorem IsFaithful.of_openNode {reader : Reader} {tag : Tag} {node : Node}
    (hnext : reader.cursor.nextTag = .ok tag) (hkind : reader.cursor.kindOf tag = .element)
    (hnode : (reader.openNode tag).2.result = .ok node) :
    IsFaithful reader.document reader.options.overflow reader.position node tag := by
  obtain ⟨hstart, hstop⟩ := Cursor.nextTag_eq_ok_iff.mp hnext
  obtain ⟨hle, -, hfirst⟩ := Cursor.findByteFrom?_eq_some_iff.mp hstart
  obtain ⟨-, -, hwithin⟩ := Cursor.findByteFrom?_eq_some_iff.mp hstop
  have hdecoded := (Cursor.decodeTag_eq_ok_iff.mp hnode).1
  obtain ⟨hname, hspace, -⟩ := Declaration.isPlain_of_decode hdecoded
  refine ⟨Reader.isOpened_of_openNode hnext hnode, hle, hfirst, fun i hi => hwithin i hi, hdecoded,
    hname, hspace, ?_, ?_⟩
  · intro hmem
    obtain ⟨i, hi⟩ := List.mem_iff_getElem?.mp hmem
    obtain ⟨hlt, hget⟩ := Reader.getElem?_of_openNode hnode hi
    exact hwithin _ (Nat.le_add_right _ _) hlt hget
  · intro byte hhead
    rw [List.head?_eq_getElem?] at hhead
    -- the first byte of the name is the one that tells the kind of the tag
    obtain ⟨-, hget⟩ := Reader.getElem?_of_openNode hnode hhead
    have helement : TagKind.ofByte? (some byte) = .element := by
      rw [← hget]
      exact hkind
    exact TagKind.ne_of_element helement

/-- A node is faithful from wherever its tag is the next one: `soughtFrom` may be the place of any
such cursor. -/
theorem IsFaithful.of_nextTag {document : Bytes} {overflow : Overflow} {soughtFrom : Nat} {node : Node}
    {tag : Tag} (h : IsFaithful document overflow soughtFrom node tag) {sought : Cursor}
    (hdocument : sought.document = document) (hnext : sought.nextTag = .ok tag) :
    IsFaithful document overflow sought.position node tag := by
  obtain ⟨hle, -, hfirst⟩ := Cursor.findByteFrom?_eq_some_iff.mp (Cursor.nextTag_eq_ok_iff.mp hnext).1
  exact { h with soughtFrom_le := hle, first := hdocument ▸ hfirst }

/-- **A node that a reader has just opened** is faithful, and the reader stands where its body
starts, `node.bodyStart`. -/
theorem Reader.HasOpened.exists_isFaithful {reader : Reader} {node : Node} (h : reader.HasOpened node) :
    reader.position = node.bodyStart ∧ ∃ tag soughtFrom,
      IsFaithful reader.document reader.options.overflow soughtFrom node tag := by
  obtain ⟨before, tag, hnext, hkind, hnode, rfl⟩ := h
  have hfaithful := IsFaithful.of_openNode hnext hkind hnode
  exact ⟨(position_passTag hnext).trans hfaithful.bodyStart_eq.symm, tag, _, hfaithful⟩

/-! ## Visits -/

namespace Course

section Visits

variable {p : Moment ι ε → Prop} {level : Nat} {reader after : Reader} {inner : List (Moment ι ε)}
  {result : Except Fault Unit}

/-- What holds of two events and of all in between. -/
theorem forall_mem_around {first last : Moment ι ε} (hfirst : p first)
    (hinner : ∀ moment ∈ inner, p moment) (hlast : p last) :
    ∀ moment ∈ first :: (inner ++ [last]), p moment := by
  refine List.forall_mem_cons.mpr ⟨hfirst, List.forall_mem_append.mpr ⟨hinner, ?_⟩⟩
  exact List.forall_mem_singleton.mpr hlast

variable (hother : ∀ moment : Moment ι ε, moment.opened? = none → p moment)

include hother

/-- Logging is no visit. -/
theorem forall_mem_logs (records : List LogRecord) :
    ∀ moment ∈ (Moment.logs level reader records : List (Moment ι ε)), p moment :=
  List.forall_mem_map.mpr fun _ _ => hother _ rfl

/-- Neither is a step that reports its result, unless its event is one. -/
theorem forall_mem_reported (logged : Logged α) {event : Except Fault α → Event ι ε}
    (hevent : (⟨level, reader, event logged.result⟩ : Moment ι ε).opened? = none) :
    ∀ moment ∈ Moment.reported level reader logged event, p moment := by
  refine List.forall_mem_append.mpr ⟨forall_mem_logs hother _, ?_⟩
  exact List.forall_mem_singleton.mpr (hother _ hevent)

/-- In a scope, only the work inside makes visits; the records of the scope itself are none. -/
theorem Scoped.forall_mem {element : Option Node}
    (h : Scoped (fun _ moments _ => ∀ moment ∈ moments, p moment) level element reader inner after
      result) : ∀ moment ∈ inner, p moment := by
  cases h with
  | refused => exact List.forall_mem_singleton.mpr (hother _ rfl)
  | entered _ _ work => exact forall_mem_around (hother _ rfl) work (hother _ rfl)

/-- In a parse, only the work in its scope does. -/
theorem Rooted.forall_mem
    (h : Rooted (fun _ moments _ => ∀ moment ∈ moments, p moment) level reader inner after result) :
    ∀ moment ∈ inner, p moment := by
  cases h with
  | broken => exact forall_mem_logs hother _
  | empty => exact forall_mem_logs hother _
  | element _ _ work =>
    exact List.forall_mem_append.mpr ⟨forall_mem_logs hother _, work.forall_mem hother⟩

/-- **What holds of visits as they are made holds of whatever happens**, if it holds of all other
events: then `∀ moment ∈ moments, p moment` is a closed course. -/
theorem closed_of_visits
    (hvisit : ∀ level (reader : Reader) (tag : Tag) node visitor, reader.cursor.nextTag = .ok tag →
      reader.cursor.kindOf tag = .element → (reader.openNode tag).2.result = .ok node →
        p ⟨level, reader.passTag tag, .visit visitor node tag reader.position⟩) :
    Course.Closed (fun _ moments _ => ∀ moment ∈ moments, p moment : Course ι ε) where
  nil _ := List.forall_mem_nil _
  append h₁ h₂ := List.forall_mem_append.mpr ⟨h₁, h₂⟩
  remark _ _ _ := List.forall_mem_singleton.mpr (hother _ rfl)
  reset _ _ := List.forall_mem_singleton.mpr (hother _ rfl)
  readBody _ _ _ := forall_mem_reported hother _ rfl
  skip _ _ _ := forall_mem_reported hother _ rfl
  skipMarkup _ _ _ _ _ := List.forall_mem_singleton.mpr (hother _ rfl)
  close _ _ _ _ _ _ := List.forall_mem_singleton.mpr (hother _ rfl)
  broken _ _ _ _ _ _ _ := forall_mem_logs hother _
  visit level reader _ tag node _ visitor _ next kind decoded work := by
    have hmade := hvisit level reader tag node visitor next kind decoded
    exact List.forall_mem_append.mpr
      ⟨forall_mem_logs hother _, forall_mem_around hmade work (hother _ rfl)⟩
  descendEmpty _ _ _ _ _ :=
    forall_mem_around (hother _ rfl) (List.forall_mem_nil _) (hother _ rfl)
  descend _ _ _ _ _ _ _ _ work :=
    forall_mem_around (hother _ rfl) (work.forall_mem hother) (hother _ rfl)
  parse _ _ _ _ _ _ work :=
    forall_mem_around (hother _ rfl) (work.forall_mem hother) (hother _ rfl)

end Visits

end Course

/-- A moment shows a faithful node, if it is a visit, and the reader where the node's body starts.
The document and the options are those of its reader. -/
def Moment.ShowsFaithful (moment : Moment ι ε) : Prop :=
  ∀ visitor node tag soughtFrom, moment.event = .visit visitor node tag soughtFrom →
    moment.reader.position = node.bodyStart ∧
      IsFaithful moment.reader.document moment.reader.options.overflow soughtFrom node tag

/-- **Whatever happens, nodes are faithful when they are handed out**: `ShowsFaithful` of every
moment is a closed course. -/
theorem Moment.closed_showsFaithful :
    Course.Closed (fun _ moments _ => ∀ moment ∈ moments, moment.ShowsFaithful : Course ι ε) := by
  refine Course.closed_of_visits ?_ ?_
  · intro moment hnone visitor node tag soughtFrom hevent
    rw [Moment.opened?, hevent] at hnone
    cases hnone
  · intro level reader tag node visitor hnext hkind hnode other shown place soughtFrom hevent
    cases hevent
    have hfaithful := IsFaithful.of_openNode hnext hkind hnode
    exact ⟨(Reader.position_passTag hnext).trans hfaithful.bodyStart_eq.symm, hfaithful⟩

/-! ## Root elements -/

namespace Cursor

/-- **A cursor passes markup**, one declaration, comment or processing instruction after another,
and may stop before any tag. -/
inductive PassesMarkup : Cursor → Cursor → Prop
  /-- It stays where it is. -/
  | here (cursor : Cursor) : PassesMarkup cursor cursor
  /-- It passes the next tag, and more behind it. -/
  | pass {cursor sought : Cursor} {tag : Tag} (next : cursor.nextTag = .ok tag)
      (kind : cursor.kindOf tag = .markup) (more : PassesMarkup (cursor.passTag tag) sought) :
      PassesMarkup cursor sought

/-- Passing markup leaves the document. -/
theorem PassesMarkup.document_eq {cursor sought : Cursor} (h : cursor.PassesMarkup sought) :
    sought.document = cursor.document := by
  induction h with
  | here => rfl
  | pass _ _ _ ih => exact ih

/-- **A prolog ends before the next tag** of a cursor `sought` that has passed its markup. -/
theorem exists_sought_skipProlog {cursor : Cursor} (hresult : cursor.skipProlog.2.result = .ok ())
    (hmore : cursor.skipProlog.1.isEof = false) :
    ∃ sought tag, cursor.PassesMarkup sought ∧ sought.nextTag = .ok tag ∧
      cursor.skipProlog.1.nextTag = .ok tag := by
  fun_induction skipProlog cursor with
  | case1 cursor heof => rw [heof] at hmore; cases hmore
  | case2 => cases hresult
  | case3 cursor _ tag hnext hkind stopped skipped hskip ih =>
    rw [hskip] at ih
    obtain ⟨sought, root, hpasses, hsought, hstopped⟩ := ih hresult hmore
    exact ⟨sought, root, .pass hnext hkind hpasses, hsought, hstopped⟩
  | case4 cursor _ tag hnext =>
    exact ⟨cursor, tag, .here cursor, hnext, nextTag_setPosition_start hnext⟩

end Cursor

namespace Moment

/-- A moment opens what it shows, before all that comes behind it. -/
theorem opened_cons (moment : Moment ι ε) (moments : List (Moment ι ε)) :
    opened (moment :: moments) = moment.opened?.toList ++ opened moments := by
  simp only [opened, List.filterMap_eq_flatMap_toList, List.flatMap_cons]

/-- Logging opens nothing. -/
@[simp] theorem opened_logs (level : Nat) (reader : Reader) (records : List LogRecord) :
    opened (logs level reader records : List (Moment ι ε)) = [] :=
  List.filterMap_eq_nil_iff.mpr (List.forall_mem_map.mpr fun _ _ => rfl)

/-- A moment that opens a node is a visit: its event is `.visit visitor node tag soughtFrom`. -/
theorem exists_event_of_opened? {moment : Moment ι ε} {node : Node} {tag : Tag}
    (h : moment.opened? = some (node, tag)) :
    ∃ visitor soughtFrom, moment.event = .visit visitor node tag soughtFrom := by
  unfold opened? at h
  split at h
  · rename_i visitor other place soughtFrom hevent
    cases h
    exact ⟨visitor, soughtFrom, hevent⟩
  · cases h

end Moment

namespace Course

variable {P : Course ι ε} {level : Nat} {reader after : Reader} {moments : List (Moment ι ε)}
  {node : Node} {tag : Tag}

/-- The first node of a visit is that of the next tag, `reader.cursor.nextTag = .ok tag`. -/
theorem Visiting.nextTag_of_opened {child : Node} {answer : Except Fault Signal}
    (h : Visiting P level reader child answer moments after)
    (hopened : (Moment.opened moments).head? = some (node, tag)) :
    reader.cursor.nextTag = .ok tag := by
  cases h with
  | visited visitor next =>
    rw [Moment.opened_append, Moment.opened_logs, Moment.opened_cons] at hopened
    cases hopened
    exact next

/-- So is that of a root element. -/
theorem RootVisiting.nextTag_of_opened (h : RootVisiting P level reader moments after)
    (hopened : (Moment.opened moments).head? = some (node, tag)) :
    reader.cursor.nextTag = .ok tag := by
  cases h with
  | missing => cases hopened
  | broken =>
    rw [Moment.opened_logs] at hopened
    cases hopened
  | visited visit => exact visit.nextTag_of_opened hopened

/-- **The first node of a parse** is that of the tag at which the prolog ends,
`reader.cursor.skipProlog.1.nextTag = .ok tag`. -/
theorem Rooted.nextTag_of_opened {result : Except Fault Unit}
    (h : Rooted (RootVisiting P level) level reader moments after result)
    (hopened : (Moment.opened moments).head? = some (node, tag)) :
    reader.cursor.skipProlog.2.result = .ok () ∧ reader.cursor.skipProlog.1.isEof = false ∧
      reader.cursor.skipProlog.1.nextTag = .ok tag := by
  cases h with
  | broken =>
    rw [Moment.opened_logs] at hopened
    cases hopened
  | empty =>
    rw [Moment.opened_logs] at hopened
    cases hopened
  | element skipped notEof work =>
    rw [Moment.opened_append, Moment.opened_logs, List.nil_append] at hopened
    refine ⟨skipped, notEof, ?_⟩
    cases work with
    | refused => cases hopened
    | entered _ _ work =>
      -- the records about the scope open nothing
      rw [Moment.opened_cons, Moment.opened_append, Moment.opened_cons] at hopened
      exact work.nextTag_of_opened (by simpa [Moment.opened?] using hopened)

end Course

/-- **The root element of a parse** is looked for from where the reader has passed the markup before
it, the cursor `sought`. -/
theorem Session.exists_sought_of_parse {P : Course ι ε} {act : Act ι σ ε} (hact : act.Follows P)
    {visitor : ι} {session ended : Session ι σ ε} {result : Except Fault Unit} {node : Node} {tag : Tag}
    (hrun : session.parse act visitor = some (ended, result))
    (hopened : (Moment.opened (ended.since session)).head? = some (node, tag)) :
    ∃ sought, session.reader.cursor.PassesMarkup sought ∧ sought.nextTag = .ok tag := by
  obtain ⟨worked, hroot, rfl⟩ := Session.parse_eq_some hrun
  have hrooted := hact.rooted hroot
  -- the events around the work open nothing
  have hsince : session.Follows (fun before moments _ =>
      (Moment.opened moments).head? = some (node, tag) →
        before.cursor.skipProlog.2.result = .ok () ∧ before.cursor.skipProlog.1.isEof = false ∧
          before.cursor.skipProlog.1.nextTag = .ok tag) (worked.record (.parsed result)) := by
    refine hrooted.around [⟨session.level, session.reader.dropScopes, .parse visitor⟩]
      [⟨session.level, worked.reader, .parsed result⟩] rfl rfl (trace_record _ _) ?_ ?_ ?_ ?_
    · rw [trace_record, hrooted.1]
      rfl
    · simp
    · simp
    · intro inner hinner hhead
      rw [Moment.opened_append, Moment.opened_append, Moment.opened_cons, Moment.opened_cons] at hhead
      exact hinner.nextTag_of_opened (by simpa [Moment.opened?] using hhead)
  obtain ⟨hskipped, hmore, hnext⟩ := hsince.since hopened
  obtain ⟨sought, other, hpasses, hsought, hother⟩ :=
    Cursor.exists_sought_skipProlog hskipped hmore
  rw [hnext, Except.ok.injEq] at hother
  exact ⟨sought, hpasses, hother ▸ hsought⟩

/-! ## Visitors on their guard -/

/-- **Visitors on their guard**: what they do with a node that `accepts reader node`, and what the
`other` ones do with any other node. -/
def Cast.guarded (accepts : Reader → Node → Bool) (cast other : Cast ι σ ε) : Cast ι σ ε :=
  fun visitor node => .inspect fun reader =>
    if accepts reader node then cast visitor node else other visitor node

/-- **A guard that accepts what readers open** changes nothing, by induction on the fuel: with the
empty trace in front, `Mirrors #[]`, the two come to the same. -/
theorem Act.mirrors_guarded {accepts : Reader → Node → Bool} (cast other : Cast ι σ ε)
    (haccepts : ∀ reader node, Reader.HasOpened reader node → accepts reader node = true) (fuel : Nat) :
    Act.Mirrors #[] (perform cast fuel) (perform (cast.guarded accepts other) fuel) := by
  induction fuel with
  | zero =>
    intro visitor node session _
    rfl
  | succ fuel ih =>
    intro visitor node session hopened
    have hguarded : perform (cast.guarded accepts other) (fuel + 1) visitor node (session.behind #[]) =
        (if accepts session.reader node then cast visitor node else other visitor node).run
          (perform (cast.guarded accepts other) fuel) fuel (session.behind #[]) := rfl
    -- the guard lets every node pass that was opened, so the other visitors are never called
    rw [hguarded, if_pos (haccepts _ _ hopened)]
    exact ih.run_behind fuel (cast visitor node) session

/-! ## Whole runs -/

namespace Session

variable {cast : Cast ι σ ε} {calls fuel : Nat} {session ended : Session ι σ ε} {node : Node}
  {tag : Tag}

/-- **At every visit of a run**, the reader stands where the node's body starts, and the node shows
the document that the run began with, `IsFaithful session.reader.document`. -/
theorem isFaithful_of_run {script : Script ι σ ε α} {value : α}
    (hrun : script.run (perform cast calls) fuel session = some (ended, value)) {moment : Moment ι ε}
    (hm : moment ∈ ended.since session) {visitor : ι} {soughtFrom : Nat}
    (hevent : moment.event = .visit visitor node tag soughtFrom) :
    moment.reader.position = node.bodyStart ∧
      IsFaithful session.reader.document session.reader.options.overflow soughtFrom node tag := by
  have hcomposed : Course.Composed (fun _ moments _ => ∀ moment ∈ moments, moment.ShowsFaithful :
    Course ι ε) := Moment.closed_showsFaithful.composed
  have hfollows := hcomposed.follows_run (hcomposed.follows_perform cast calls) hrun
  have hshows := hfollows.since moment hm visitor node tag soughtFrom hevent
  -- the moment shows the document and the options that the session began with
  obtain ⟨hdocument, hoptions⟩ := Prod.mk.inj ((source_of_run cast hrun).everywhere moment hm)
  rwa [hdocument, hoptions] at hshows

/-- **The root element of a parse** shows the next tag from `sought`, where the reader has passed
the markup before it. -/
theorem isFaithful_of_parse {visitor : ι} {result : Except Fault Unit}
    (hrun : session.parse (perform cast calls) visitor = some (ended, result))
    (hopened : (Moment.opened (ended.since session)).head? = some (node, tag)) :
    ∃ sought, session.reader.cursor.PassesMarkup sought ∧
      IsFaithful session.reader.document session.reader.options.overflow sought.position node tag := by
  obtain ⟨moment, hm, hmoment⟩ := List.mem_filterMap.mp (List.mem_of_mem_head? hopened)
  obtain ⟨other, soughtFrom, hevent⟩ := Moment.exists_event_of_opened? hmoment
  -- a parse is the script that asks for it, so its first node is faithful as all others are
  have hscript : (Script.parse visitor .done).run (perform cast calls) 0 session =
      some (ended, result) := by
    rw [Script.run, hrun]
    rfl
  obtain ⟨-, hfaithful⟩ := isFaithful_of_run hscript hm hevent
  have hact := Moment.closed_showsFaithful.composed.follows_perform cast calls
  obtain ⟨sought, hpasses, hnext⟩ := exists_sought_of_parse hact hrun hopened
  exact ⟨sought, hpasses, hfaithful.of_nextTag hpasses.document_eq hnext⟩

end Session

/-- **Nodes are faithful**, whatever visitors do: resets, parses of this document and of others,
nodes from elsewhere and faults that are caught. At every `.visit visitor node tag soughtFrom` of a
run, the reader stands at `node.bodyStart`, and the node `IsFaithful` to the next tag from where the
reader looked for it. The root element of a parse is looked for from where the reader has passed the
markup before it. Work that never ends has no other visits: with visitors
`cast.guarded accepts other`, for any guard that accepts what is faithful, every run comes to the
same, so nothing comes of what visitors would do with a node that is not. -/
theorem faithful_of_run (cast : Cast ι σ ε) (calls fuel : Nat) (session : Session ι σ ε) :
    (∀ (α : Type) (script : Script ι σ ε α) ended value,
        script.run (perform cast calls) fuel session = some (ended, value) →
          ∀ moment ∈ ended.since session, ∀ visitor node tag soughtFrom,
            moment.event = .visit visitor node tag soughtFrom →
              moment.reader.position = node.bodyStart ∧
                IsFaithful session.reader.document session.reader.options.overflow soughtFrom node
                  tag) ∧
      (∀ visitor ended result,
        session.parse (perform cast calls) visitor = some (ended, result) →
          ∀ node tag, (Moment.opened (ended.since session)).head? = some (node, tag) →
            ∃ sought, session.reader.cursor.PassesMarkup sought ∧
              IsFaithful session.reader.document session.reader.options.overflow sought.position
                node tag) ∧
      ∀ (accepts : Reader → Node → Bool) (other : Cast ι σ ε),
        (∀ reader node tag soughtFrom, Reader.position reader = node.bodyStart →
          IsFaithful reader.document reader.options.overflow soughtFrom node tag →
            accepts reader node = true) →
          ∀ (α : Type) (script : Script ι σ ε α),
            script.run (perform (cast.guarded accepts other) calls) fuel session =
              script.run (perform cast calls) fuel session := by
  refine ⟨?_, ?_, ?_⟩
  · intro α script ended value hrun moment hm visitor node tag soughtFrom hevent
    exact Session.isFaithful_of_run hrun hm hevent
  · intro visitor ended result hrun node tag hopened
    exact Session.isFaithful_of_parse hrun hopened
  · intro accepts other haccepts α script
    have hguard : ∀ reader node, Reader.HasOpened reader node → accepts reader node = true := by
      intro reader node hopened
      obtain ⟨hposition, tag, soughtFrom, hfaithful⟩ := hopened.exists_isFaithful
      exact haccepts reader node tag soughtFrom hposition hfaithful
    -- guarded visitors do as the others do, behind any trace, so also behind none
    have hmirrors := (Act.mirrors_guarded cast other hguard calls).run_behind fuel script session
    rwa [Session.behind_empty, Outcome.behind_empty] at hmirrors

/-- A session at the front of `<!x><a/>`. -/
def sessionBehindMarkup : Session Unit Unit Empty :=
  .start (.ofDocument [0x3C, 0x21, 0x78, 0x3E, 0x3C, 0x61, 0x2F, 0x3E] .lenient) ()

/-- The element `a` of that document. -/
def emptyA : Node := ⟨⟨[0x61], .empty, true⟩, 8⟩

/-- The root element of `<!x><a/>` is looked for behind `<!x>`, from offset 4, and shows the tag
`<a/>`. Visitors that look at their place before they descend do the same. -/
theorem faithful_of_run_sessionBehindMarkup :
    ∃ ended, sessionBehindMarkup.parse (perform descendAll 9) () = some (ended, .ok ()) ∧
      (∃ moment ∈ ended.since sessionBehindMarkup,
        moment.event = .visit () emptyA ⟨4, 7⟩ 4 ∧ moment.reader.position = emptyA.bodyStart ∧
          IsFaithful sessionBehindMarkup.reader.document .truncate 4 emptyA ⟨4, 7⟩) ∧
      (∃ sought, sessionBehindMarkup.reader.cursor.PassesMarkup sought ∧
        IsFaithful sessionBehindMarkup.reader.document .truncate sought.position emptyA ⟨4, 7⟩) ∧
      ∀ other, (Script.parse () .done).run (perform (descendAll.guarded
          (fun reader node => decide (reader.position = node.bodyStart)) other) 9) 9
        sessionBehindMarkup = some (ended, .ok ()) := by
  have hrun : ∃ ended moment, sessionBehindMarkup.parse (perform descendAll 9) () =
        some (ended, .ok ()) ∧
      (ended.since sessionBehindMarkup)[3]? = some moment ∧
      moment.event = .visit () emptyA ⟨4, 7⟩ 4 ∧
      (Moment.opened (ended.since sessionBehindMarkup)).head? = some (emptyA, ⟨4, 7⟩) := by
    exact ⟨_, _, by with_unfolding_all rfl, by with_unfolding_all rfl, by with_unfolding_all rfl,
      by with_unfolding_all rfl⟩
  obtain ⟨ended, moment, hdone, hmoment, hevent, hopened⟩ := hrun
  obtain ⟨hscripts, hroots, hguarded⟩ := faithful_of_run descendAll 9 9 sessionBehindMarkup
  have hscript : (Script.parse () .done).run (perform descendAll 9) 9 sessionBehindMarkup =
      some (ended, .ok ()) := by
    rw [Script.run, hdone]
    rfl
  have hm := List.mem_of_getElem? hmoment
  refine ⟨ended, hdone, ⟨moment, hm, hevent, ?_⟩, hroots () ended _ hdone _ _ hopened, fun other => ?_⟩
  · exact hscripts _ _ _ _ hscript moment hm _ _ _ _ hevent
  · rw [hguarded _ other (fun _ _ _ _ hposition _ => decide_eq_true hposition)]
    exact hscript

end TagWalk
