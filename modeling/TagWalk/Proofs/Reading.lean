import TagWalk.Proofs.Body
import TagWalk.Proofs.Places
import TagWalk.Proofs.Reuse

/-! # What reading a body comes to

Reading a body has five outcomes, and which of them comes is decided by the document and the node alone:
the length of the closing tag against the bytes behind the node's opening tag, the length of the name,
and the places of the closing tag. Nothing changes when no body is read. A body that is read can be read
again, from anywhere, and the reader stays where the first reading left it.

* **`Reader.BodyOutcome`** — the outcomes, each with the reader afterwards.
* **`Reader.bodyOutcome_iff`** — reading a body has exactly one of them.
* **`Reader.readBody_readBody`** — a second reading changes nothing.
* **`Reader.readBody_of_document`** — what is read depends on the document and the node.
* **`readBody_exact`** — all this, and a later reading, whatever was done in between. -/

namespace TagWalk

variable {ι σ ε α : Type}

/-! ## Closing tags -/

namespace Cursor

variable {cursor : Cursor} {node : Node}

/-- The bytes that are left behind a node's opening tag, `document.length - start`; none when it is
past the end. -/
theorem length_tailFrom (cursor : Cursor) (start : Nat) :
    (cursor.tailFrom start).length = cursor.document.length - start :=
  List.length_drop

/-- A tag longer than what is left is out of range, whatever the name: `closingTagOutOfRange` comes
before `nameTooLong`. -/
theorem closingTagOf_of_short
    (hshort : cursor.document.length - node.bodyStart < node.name.length + 3) :
    cursor.closingTagOf node = .error (.closingTagOutOfRange (Utf8.lossy node.name)
      (cursor.document.length - node.bodyStart)) := by
  unfold closingTagOf
  simp only [length_tailFrom, Node.length_closingTag, if_pos hshort]

/-- With room for the tag, a name of more than 256 bytes is reported as `nameTooLong`. -/
theorem closingTagOf_of_nameTooLong
    (hroom : node.name.length + 3 ≤ cursor.document.length - node.bodyStart)
    (hlong : 256 < node.name.length) :
    cursor.closingTagOf node = .error (.nameTooLong node.name.length 256) := by
  have hlong' : maxNameLength < node.name.length := hlong
  unfold closingTagOf
  simp only [length_tailFrom, Node.length_closingTag, if_neg (Nat.not_lt.mpr hroom), if_pos hlong']
  rfl

/-- A tag that has no place, `placesOf node.bodyStart node.closingTag = ∅`, is not found. -/
theorem closingTagOf_of_absent
    (hroom : node.name.length + 3 ≤ cursor.document.length - node.bodyStart)
    (hname : node.name.length ≤ 256)
    (habsent : cursor.placesOf node.bodyStart node.closingTag = ∅) :
    cursor.closingTagOf node = .error (.closingTagNotFound (Utf8.lossy node.name)) := by
  have hname' : ¬ maxNameLength < node.name.length := Nat.not_lt.mpr hname
  have hnone := (findFrom?_eq_none_iff_empty node.closingTag_ne_nil).mpr habsent
  unfold closingTagOf
  simp only [length_tailFrom, Node.length_closingTag, if_neg (Nat.not_lt.mpr hroom), if_neg hname',
    hnone]

/-- **Any other tag is found** at its least place:
`IsLeast (cursor.placesOf node.bodyStart node.closingTag) stop`. -/
theorem closingTagOf_of_least {stop : Nat} (hname : node.name.length ≤ 256)
    (hleast : IsLeast (cursor.placesOf node.bodyStart node.closingTag) stop) :
    cursor.closingTagOf node = .ok stop :=
  closingTagOf_eq_ok_iff.mpr
    ⟨hname, (findFrom?_eq_some_iff_isLeast node.closingTag_ne_nil).mpr hleast⟩

/-- Where the closing tag of a node is, or why it is not found, depends on the document and the
node. -/
theorem closingTagOf_of_document {other : Cursor} (h : other.document = cursor.document) :
    other.closingTagOf node = cursor.closingTagOf node := by
  unfold closingTagOf findFrom? tailFrom
  rw [h]

end Cursor

namespace Reader

variable {reader after : Reader} {node : Node} {result : Except Fault Bytes}

/-! ## The outcomes -/

/-- **What reading the body of a node comes to**: the reader afterwards, and the body or the reason
why there is none. The conditions speak of `reader.document` and of the node alone. -/
inductive BodyOutcome (reader : Reader) (node : Node) : Reader → Except Fault Bytes → Prop
  /-- A node that closes itself has an empty body, and only the mark changes. -/
  | empty (closed : node.selfClosing = true) :
      BodyOutcome reader node { reader with lastClosed := some node.bodyStart } (.ok [])
  /-- Fewer bytes are left behind the opening tag than the closing tag has. -/
  | outOfRange (opened : node.selfClosing = false)
      (short : reader.document.length - node.bodyStart < node.name.length + 3) :
      BodyOutcome reader node reader (.error (.closingTagOutOfRange (Utf8.lossy node.name)
        (reader.document.length - node.bodyStart)))
  /-- There is room for the closing tag, but the name is too long. -/
  | nameTooLong (opened : node.selfClosing = false)
      (room : node.name.length + 3 ≤ reader.document.length - node.bodyStart)
      (long : 256 < node.name.length) :
      BodyOutcome reader node reader (.error (.nameTooLong node.name.length 256))
  /-- The closing tag occurs nowhere at or after the body's start. -/
  | notFound (opened : node.selfClosing = false)
      (room : node.name.length + 3 ≤ reader.document.length - node.bodyStart)
      (matchable : node.name.length ≤ 256)
      (absent : reader.cursor.placesOf node.bodyStart node.closingTag = ∅) :
      BodyOutcome reader node reader (.error (.closingTagNotFound (Utf8.lossy node.name)))
  /-- The body ends at the least place of the closing tag. The reader is past that tag, or where it was
  if that is further, and the node is marked. -/
  | found {stop : Nat} {after : Reader} (opened : node.selfClosing = false)
      (room : node.name.length + 3 ≤ reader.document.length - node.bodyStart)
      (matchable : node.name.length ≤ 256)
      (least : IsLeast (reader.cursor.placesOf node.bodyStart node.closingTag) stop)
      (document_eq : after.document = reader.document) (options_eq : after.options = reader.options)
      (scopes_eq : after.scopes = reader.scopes)
      (position_eq : after.position = max reader.position (stop + (node.name.length + 3)))
      (lastClosed_eq : after.lastClosed = some node.bodyStart) :
      BodyOutcome reader node after (.ok (reader.document.slice node.bodyStart stop))

/-- The reader in front of a closing tag that was found is past it in the end, at
`stop + (node.name.length + 3)` or where it was: the tag is inside of the document, so that the move
is not cut short. -/
theorem position_setPosition_of_mem {stop : Nat}
    (hstop : stop ∈ reader.cursor.placesOf node.bodyStart node.closingTag) :
    (reader.cursor.setPosition (max reader.position (stop + node.closingTag.length))).position =
      max reader.position (stop + (node.name.length + 3)) := by
  obtain ⟨-, hslice⟩ := hstop
  obtain ⟨-, hinside, -⟩ := Cursor.slice?_eq_some_iff.mp hslice
  have hplace := reader.cursor.position_le
  rw [Cursor.position_setPosition, ← node.length_closingTag, Reader.position]
  omega

namespace BodyOutcome

/-- **An outcome is what reading comes to**: `reader.readBody node` ends with that reader and that
result. -/
theorem readBody_eq (h : reader.BodyOutcome node after result) :
    (reader.readBody node).1 = after ∧ (reader.readBody node).2.result = result := by
  cases h with
  | empty closed =>
    unfold readBody
    rw [if_pos closed]
    exact ⟨rfl, rfl⟩
  | outOfRange opened short =>
    apply readBody_of_error
    exact Cursor.readBody_eq_error_iff.mpr ⟨opened, Cursor.closingTagOf_of_short short⟩
  | nameTooLong opened room long =>
    apply readBody_of_error
    exact Cursor.readBody_eq_error_iff.mpr ⟨opened, Cursor.closingTagOf_of_nameTooLong room long⟩
  | notFound opened room matchable absent =>
    apply readBody_of_error
    exact Cursor.readBody_eq_error_iff.mpr
      ⟨opened, Cursor.closingTagOf_of_absent room matchable absent⟩
  | @found stop after opened room matchable least document_eq options_eq scopes_eq position_eq
      lastClosed_eq =>
    have hread : reader.cursor.readBody node = .ok (reader.document.slice node.bodyStart stop,
        reader.cursor.setPosition (max reader.position (stop + node.closingTag.length))) := by
      rw [Cursor.readBody_of_open opened, Cursor.closingTagOf_of_least matchable least]
      rfl
    rw [readBody_of_ok hread]
    refine ⟨?_, rfl⟩
    obtain ⟨cursor, scopes, options, lastClosed⟩ := after
    obtain rfl : scopes = reader.scopes := scopes_eq
    obtain rfl : options = reader.options := options_eq
    obtain rfl : lastClosed = some node.bodyStart := lastClosed_eq
    -- the two cursors are at the same place in the same document
    have hcursor : reader.cursor.setPosition (max reader.position (stop + node.closingTag.length)) =
        cursor :=
      Cursor.ext_of_position document_eq.symm
        ((position_setPosition_of_mem least.1).trans position_eq.symm)
    exact congrArg (fun moved => ({ reader with cursor := moved } : Reader).markClosed node) hcursor

/-- **An outcome stays**: `after.BodyOutcome node after result`, so it is what the next reading
comes to. -/
theorem again (h : reader.BodyOutcome node after result) : after.BodyOutcome node after result := by
  cases h with
  | empty closed => exact .empty closed
  | outOfRange opened short => exact .outOfRange opened short
  | nameTooLong opened room long => exact .nameTooLong opened room long
  | notFound opened room matchable absent => exact .notFound opened room matchable absent
  | @found stop after opened room matchable least document_eq options_eq scopes_eq position_eq
      lastClosed_eq =>
    have hplaces : after.cursor.placesOf node.bodyStart node.closingTag =
        reader.cursor.placesOf node.bodyStart node.closingTag :=
      Cursor.placesOf_of_document document_eq _ _
    -- the reader is past the closing tag already
    have hplace : after.position = max after.position (stop + (node.name.length + 3)) := by
      omega
    rw [← document_eq] at room ⊢
    exact .found opened room matchable (hplaces ▸ least) rfl rfl rfl hplace lastClosed_eq

end BodyOutcome

/-- **Reading always has an outcome**: the conditions leave no case out. -/
theorem exists_bodyOutcome (reader : Reader) (node : Node) :
    ∃ after result, reader.BodyOutcome node after result := by
  cases hclosed : node.selfClosing with
  | true => exact ⟨_, _, .empty hclosed⟩
  | false =>
    by_cases hroom : node.name.length + 3 ≤ reader.document.length - node.bodyStart
    · by_cases hname : node.name.length ≤ 256
      · cases hfound : reader.cursor.findFrom? node.bodyStart node.closingTag with
        | none =>
          have habsent := (Cursor.findFrom?_eq_none_iff_empty node.closingTag_ne_nil).mp hfound
          exact ⟨_, _, .notFound hclosed hroom hname habsent⟩
        | some stop =>
          have hleast := (Cursor.findFrom?_eq_some_iff_isLeast node.closingTag_ne_nil).mp hfound
          let cursor := reader.cursor.setPosition (max reader.position (stop + node.closingTag.length))
          have hplace := position_setPosition_of_mem hleast.1
          exact ⟨({ reader with cursor } : Reader).markClosed node, _,
            .found hclosed hroom hname hleast rfl rfl rfl hplace rfl⟩
      · exact ⟨_, _, .nameTooLong hclosed hroom (Nat.not_le.mp hname)⟩
    · exact ⟨_, _, .outOfRange hclosed (Nat.not_le.mp hroom)⟩

/-- **Reading a body has exactly one outcome**, namely the reader `(reader.readBody node).1` with
the result of `(reader.readBody node).2`. -/
theorem bodyOutcome_iff :
    reader.BodyOutcome node after result ↔
      (reader.readBody node).1 = after ∧ (reader.readBody node).2.result = result := by
  constructor
  · exact BodyOutcome.readBody_eq
  · rintro ⟨rfl, rfl⟩
    obtain ⟨after, result, hother⟩ := reader.exists_bodyOutcome node
    obtain ⟨hafter, hresult⟩ := hother.readBody_eq
    rwa [hafter, hresult]

/-! ## Once more -/

/-- **What is read depends on the document and the node**, and on nothing else of the reader: from
`other.document = reader.document` it follows that `other` reads the same. -/
theorem readBody_of_document {other : Reader} (h : other.document = reader.document) :
    (other.readBody node).2 = (reader.readBody node).2 := by
  have hfound : other.cursor.closingTagOf node = reader.cursor.closingTagOf node :=
    Cursor.closingTagOf_of_document h
  unfold readBody
  rw [hfound, h]
  split
  · rfl
  · cases reader.cursor.closingTagOf node with
    | error fault => rfl
    | ok offset => rfl

/-- **A second reading changes nothing**, and reads the same: reading from
`(reader.readBody node).1` is `reader.readBody node`. -/
theorem readBody_readBody (reader : Reader) (node : Node) :
    (reader.readBody node).1.readBody node = reader.readBody node := by
  have houtcome : reader.BodyOutcome node (reader.readBody node).1 (reader.readBody node).2.result :=
    bodyOutcome_iff.mpr ⟨rfl, rfl⟩
  apply Prod.ext
  · exact houtcome.again.readBody_eq.1
  · exact readBody_of_document (reader.document_readBody node)

end Reader

/-- **Whatever is done in between**, the body of a node is read again as before: a `script.play`
keeps the document, and `Reader.readBody_of_document` needs no more. -/
theorem Session.readBody_of_play (cast : Cast ι σ ε) {script : Script ι σ ε α} {fuel : Nat}
    {session ended : Session ι σ ε} {value : α}
    (hrun : script.play cast fuel session = some (ended, value)) (node : Node) :
    (ended.reader.readBody node).2 = (session.reader.readBody node).2 := by
  have hsource : ended.reader.source = session.reader.source :=
    (Session.source_of_run cast hrun).source_eq
  exact Reader.readBody_of_document (Prod.mk.inj hsource).1

/-- **Reading a body is exact, atomic and idempotent.** For every reader, and every node of this or
of another document, it has exactly one `BodyOutcome`, which the document and the node decide: the
least place of the closing tag `</name>` ends the body, and the reader moves past that tag, but
never back; without a body, the whole reader stays as it is. Reading again changes nothing:
`(reader.readBody node).1.readBody node = reader.readBody node`. Another reader of the same document
reads the same, wherever it is, with any scopes, mark and options. And so does this reader later,
whatever it was used for in between by `script.play`: parses, descents and reads of any nodes, which
may fail, and resets. -/
theorem readBody_exact (session : Session ι σ ε) (node : Node) :
    (∀ after result, session.reader.BodyOutcome node after result ↔
        (session.reader.readBody node).1 = after ∧
          (session.reader.readBody node).2.result = result) ∧
      (session.reader.readBody node).1.readBody node = session.reader.readBody node ∧
      (∀ other : Reader, other.document = session.reader.document →
        (other.readBody node).2 = (session.reader.readBody node).2) ∧
      ∀ (α : Type) (cast : Cast ι σ ε) (script : Script ι σ ε α) fuel ended value,
        script.play cast fuel session = some (ended, value) →
          (ended.reader.readBody node).2 = (session.reader.readBody node).2 := by
  refine ⟨?_, session.reader.readBody_readBody node, ?_, ?_⟩
  · intro after result
    exact Reader.bodyOutcome_iff
  · intro other hdocument
    exact Reader.readBody_of_document hdocument
  · intro α cast script fuel ended value hrun
    exact Session.readBody_of_play cast hrun node

/-- The node of the element `a` in `<a><b></a>`. -/
def nodeUnclosed : Node := ⟨⟨[0x61], .empty, false⟩, 3⟩

/-- The body of `a` in `<a><b></a>` is `<b>`. It is the same for a reader with other options, and after a
parse that failed at the end of the document. -/
theorem readBody_exact_sessionUnclosed :
    ∃ ended, parseOnce.play descendAll 11 sessionUnclosed = some (ended, .error (.missingTagStart 10)) ∧
      sessionUnclosed.reader.BodyOutcome nodeUnclosed
        (sessionUnclosed.reader.readBody nodeUnclosed).1 (.ok [0x3C, 0x62, 0x3E]) ∧
      (sessionUnclosed.reader.readBody nodeUnclosed).1.position = 10 ∧
      ((Reader.ofDocument sessionUnclosed.reader.document .strict).readBody nodeUnclosed).2 =
        .quiet (.ok [0x3C, 0x62, 0x3E]) ∧
      (ended.reader.readBody nodeUnclosed).2 = .quiet (.ok [0x3C, 0x62, 0x3E]) := by
  have hrun : ∃ ended, parseOnce.play descendAll 11 sessionUnclosed =
      some (ended, .error (.missingTagStart 10)) := ⟨_, by with_unfolding_all rfl⟩
  obtain ⟨ended, hdone⟩ := hrun
  obtain ⟨houtcome, -, hother, hlater⟩ := readBody_exact sessionUnclosed nodeUnclosed
  have hplace : (sessionUnclosed.reader.readBody nodeUnclosed).1.position = 10 := by decide
  have hread : (sessionUnclosed.reader.readBody nodeUnclosed).2 =
      .quiet (.ok [0x3C, 0x62, 0x3E]) := by with_unfolding_all rfl
  refine ⟨ended, hdone, (houtcome _ _).mpr ⟨rfl, ?_⟩, hplace, ?_, ?_⟩
  · rw [hread]
    rfl
  · exact (hother _ rfl).trans hread
  · exact (hlater _ descendAll parseOnce 11 ended _ hdone).trans hread

end TagWalk
