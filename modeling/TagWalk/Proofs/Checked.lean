import TagWalk.Proofs.Body
import TagWalk.Proofs.FlatScan
import TagWalk.Proofs.Trimming

/-! # Checked operations

What a reader does to a document, with every operation on offsets and bytes checked in the place where
it is done: a sum has to be a word of 64 bits, a difference must not be negative, a slice has to be in
order and inside of what it is taken from, and bytes are copied only to where there is room for them.
A **checked** function follows its namesake step by step, and comes to nothing as soon as an operation
is impossible.

Documents and names are **short**: less than half of all words are needed to count their bytes. Then
every operation is possible, and each checked function comes to what its namesake comes to. The node at
hand may belong to another document; its name and its offset have nothing to do with this one.

* **`Checked.add`**, **`Checked.sub`**, **`Checked.slice`**, **`Checked.copy`** — the checks.
* **`Checked.nextTag`**, **`Checked.openNode`**, **`Checked.readBody`**, **`Checked.skipProlog`** — what
  a reader does with a document.
* **`Checked.openNode_eq`**, **`Checked.readBody_eq`**, **`Checked.skipProlog_eq`** — nothing of that is
  impossible. -/

namespace TagWalk

/-- What checked work comes to: `none`, when some operation is impossible. -/
abbrev Checked (α : Type) := Option α

namespace Checked

/-! ## The checks -/

/-- The sum of two offsets, when it is a word: at most `Cursor.maxOffset`. -/
def add (first second : Nat) : Checked Nat :=
  if first + second ≤ Cursor.maxOffset then some (first + second) else none

/-- The difference of two offsets, when it is not negative: for `second ≤ first`. -/
def sub (first second : Nat) : Checked Nat :=
  if second ≤ first then some (first - second) else none

/-- The bytes between two offsets, when they are in order and in range: for
`start ≤ stop ∧ stop ≤ bytes.length`. -/
def slice (bytes : Bytes) (start stop : Nat) : Checked Bytes :=
  if start ≤ stop ∧ stop ≤ bytes.length then some (bytes.slice start stop) else none

/-- A buffer with other bytes from an offset on, when there is room for them: the slice of the
buffer that they take has to be one. -/
def copy (buffer : Bytes) (start : Nat) (bytes : Bytes) : Checked Bytes := do
  let stop ← add start bytes.length
  let _ ← slice buffer start stop
  some (buffer.take start ++ bytes ++ buffer.drop stop)

/-! ## Texts of tags -/

/-- The checked `Bytes.splitPair?`, by a search for the separator and two slices around it. -/
def splitPair (bytes : Bytes) (separator : UInt8) : Checked (Option (Bytes × Bytes)) :=
  match bytes.indexOfByte? separator with
  | none => some none
  | some offset => do
      let left ← slice bytes 0 offset
      let behind ← add offset 1
      let right ← slice bytes behind bytes.length
      some (if (right.indexOfByte? separator).isSome then none else some (left, right))

/-- The checked `Bytes.trim`, by a search from either end and a slice between the two. -/
def trim (matching : UInt8 → Bool) (bytes : Bytes) : Checked Bytes := do
  let start := bytes.trimStart matching
  let stop ←
    match bytes.reverse.findIdx? fun byte => !matching byte with
    | none => some start
    -- the offset of the byte itself, counted from the front
    | some fromEnd => add (bytes.length - (fromEnd + 1)) 1
  slice bytes start stop

/-- The checked `Attribute.ofPiece?`. -/
def attributeOf (piece : Bytes) : Checked (Option Attribute) := do
  match ← splitPair piece Byte.equals with
  | none => some none
  | some (name, value) => do
      let trimmed ← trim (· == Byte.quote) value
      some (some ⟨name, trimmed⟩)

/-- The checked `AttributeList.push`, with the attributes counted by a sum. -/
def push (list : AttributeList) (attr : Attribute) : Checked (Except Attribute AttributeList) :=
  match list.push attr with
  | .error refused => some (.error refused)
  | .ok pushed => do
      let _ ← add list.length 1
      some (.ok pushed)

/-- The checked `Declaration.collect`. -/
def collect (kept : AttributeList) : List Bytes → Checked (AttributeList × Bool)
  | [] => some (kept, false)
  | piece :: pieces => do
      match ← attributeOf piece with
      | none => collect kept pieces
      | some attr =>
          match ← push kept attr with
          | .ok kept => collect kept pieces
          | .error _ => some (kept, true)

/-- The checked `Declaration.decode`. -/
def decode (overflow : Overflow) (position : Nat) (text : Bytes) : Checked (Logged Declaration) := do
  let (inner, selfClosing) := Declaration.stripSlash text
  let (name, pieces) := inner.pieces Byte.space
  if name.isEmpty then some (.quiet (.error (.emptyDeclaration position)))
  else
    match ← collect .empty pieces, overflow with
    | (attributes, false), _ => some (.quiet (.ok ⟨name, attributes, selfClosing⟩))
    | (attributes, true), .truncate =>
        some ⟨[.truncatingAttributes name], .ok ⟨name, attributes, selfClosing⟩⟩
    | (_, true), .reject =>
        some (.quiet (.error (.tooManyAttributes (Utf8.lossy name) AttributeList.capacity)))

/-! ## Tags and bodies -/

/-- The checked `Cursor.findByteFrom?`, which adds `start` to count from the front of the
document. -/
def findByteFrom (cursor : Cursor) (start : Nat) (byte : UInt8) : Checked (Option Nat) :=
  match (cursor.tailFrom start).indexOfByte? byte with
  | none => some none
  | some i => do
      let offset ← add start i
      some (some offset)

/-- The checked `Cursor.findFrom?`, which adds `start` to count from the front of the document. -/
def findFrom (cursor : Cursor) (start : Nat) (needle : Bytes) : Checked (Option Nat) :=
  match (cursor.tailFrom start).indexOf? needle with
  | none => some none
  | some i => do
      let offset ← add start i
      some (some offset)

/-- The checked `Cursor.nextTag`: one sum leads behind the `<`. -/
def nextTag (cursor : Cursor) : Checked (Except Fault Tag) := do
  match ← findByteFrom cursor cursor.position Byte.lessThan with
  | none => some (.error (.missingTagStart cursor.position))
  | some start => do
      let behind ← add start 1
      match ← findByteFrom cursor behind Byte.greaterThan with
      | none => some (.error (.missingTagEnd start))
      | some stop => some (.ok ⟨start, stop⟩)

/-- The checked `Cursor.kindOf`: one sum leads behind the `<`. -/
def kindOf (cursor : Cursor) (tag : Tag) : Checked TagKind := do
  let behind ← add tag.start 1
  some (.ofByte? (cursor.byteAt? behind))

/-- The checked `Cursor.passTag`: one sum leads behind the `>`. -/
def passTag (cursor : Cursor) (tag : Tag) : Checked Cursor := do
  let behind ← add tag.stop 1
  some (cursor.setPosition behind)

/-- The checked `Reader.openNode`, with the slice between the brackets of the tag. -/
def openNode (reader : Reader) (tag : Tag) : Checked (Reader × Logged Node) := do
  let behind ← add tag.start 1
  let text ← slice reader.document behind tag.stop
  let cursor ← passTag reader.cursor tag
  let decoded ← decode reader.options.overflow tag.start text
  some ({ reader with cursor }, ⟨decoded.log, decoded.result.map (⟨·, cursor.position⟩)⟩)

/-- The number of bytes in the buffer for closing tags: `maxNameLength` of them for the name, and
three around it. -/
def bufferLength : Nat := maxNameLength + 3

/-- The checked `Node.closingTag`, put together in a buffer of `bufferLength` bytes. -/
def closingTag (node : Node) : Checked Bytes := do
  let buffer ← copy (List.replicate bufferLength 0) 0 [Byte.lessThan, Byte.slash]
  let buffer ← copy buffer 2 node.name
  let behind ← add 2 node.name.length
  let buffer ← copy buffer behind [Byte.greaterThan]
  let length ← add node.name.length 3
  slice buffer 0 length

/-- The checked `Cursor.closingTagOf`: a name is copied only when it was found to fit. -/
def closingTagOf (cursor : Cursor) (node : Node) : Checked (Except Fault Nat) := do
  let length ← add node.name.length 3
  let remaining := (cursor.tailFrom node.bodyStart).length
  if remaining < length then some (.error (.closingTagOutOfRange (Utf8.lossy node.name) remaining))
  else if bufferLength < length then
    some (.error (.nameTooLong node.name.length maxNameLength))
  else do
    let tag ← closingTag node
    match ← findFrom cursor node.bodyStart tag with
    | none => some (.error (.closingTagNotFound (Utf8.lossy node.name)))
    | some offset => some (.ok offset)

/-- The checked `Reader.readBody`, with the sum behind the closing tag and the slice of the body. -/
def readBody (reader : Reader) (node : Node) : Checked (Reader × Logged Bytes) :=
  if node.selfClosing then some (reader.markClosed node, .quiet (.ok []))
  else do
    let found ← closingTagOf reader.cursor node
    match found with
    | .error fault => some (reader, ⟨Reader.closingTagLog node found, .error fault⟩)
    | .ok offset => do
        let length ← add node.name.length 3
        let stop ← add offset length
        let cursor := reader.cursor.setPosition (max reader.position stop)
        let body ← slice reader.document node.bodyStart offset
        some ({ reader with cursor }.markClosed node, .quiet (.ok body))

/-- What a visitor may see of a reader: the bytes that are left, and how many they are. -/
def inspect (reader : Reader) : Checked Reader := do
  let _ ← slice reader.document reader.position reader.document.length
  let _ ← sub reader.document.length reader.position
  some reader

/-! ## Prologs -/

section Prolog

variable {cursor passed : Cursor} {tag : Tag}

/-- A sum that is a word is the sum. -/
theorem eq_of_add {first second sum : Nat} (h : add first second = some sum) :
    sum = first + second := by
  unfold add at h
  split at h
  · exact (Option.some.inj h).symm
  · cases h

/-- A search that comes to something comes to what the search without checks comes to,
`cursor.findByteFrom? start byte`. -/
theorem eq_of_findByteFrom {start : Nat} {byte : UInt8} {found : Option Nat}
    (h : findByteFrom cursor start byte = some found) : found = cursor.findByteFrom? start byte := by
  unfold findByteFrom at h
  unfold Cursor.findByteFrom?
  cases hindex : (cursor.tailFrom start).indexOfByte? byte with
  | none =>
    rw [hindex] at h
    exact (Option.some.inj h).symm
  | some i =>
    rw [hindex] at h
    obtain ⟨offset, hoffset, hfound⟩ := Option.bind_eq_some_iff.mp h
    rw [← Option.some.inj hfound, eq_of_add hoffset]
    rfl

/-- The same holds of tags. -/
theorem eq_of_nextTag {result : Except Fault Tag} (h : nextTag cursor = some result) :
    result = cursor.nextTag := by
  obtain ⟨start?, hstart, hbehind⟩ := Option.bind_eq_some_iff.mp h
  unfold Cursor.nextTag
  rw [Cursor.findByte?, ← eq_of_findByteFrom hstart]
  cases start? with
  | none => exact (Option.some.inj hbehind).symm
  | some start =>
    obtain ⟨behind, hadd, hmore⟩ := Option.bind_eq_some_iff.mp hbehind
    obtain ⟨stop?, hstop, hresult⟩ := Option.bind_eq_some_iff.mp hmore
    dsimp only
    rw [← eq_of_add hadd, ← eq_of_findByteFrom hstop]
    cases stop? with
    | none => exact (Option.some.inj hresult).symm
    | some stop => exact (Option.some.inj hresult).symm

/-- A tag that is passed leaves fewer bytes. This is all that the recursion of the checked
`skipProlog` needs. -/
theorem remainingLength_passTag (hnext : nextTag cursor = some (.ok tag))
    (hpassed : passTag cursor tag = some passed) :
    passed.remainingLength < cursor.remainingLength := by
  obtain ⟨behind, hadd, hpassed⟩ := Option.bind_eq_some_iff.mp hpassed
  rw [← Option.some.inj hpassed, eq_of_add hadd]
  exact Cursor.remainingLength_passTag (eq_of_nextTag hnext).symm

/-- The checked `Cursor.skipProlog`. -/
def skipProlog (cursor : Cursor) : Checked (Cursor × Logged Unit) :=
  if cursor.isEof then some (cursor, .quiet (.ok ()))
  else
    match _h : nextTag cursor with
    | none => none
    | some (.error fault) => some (cursor, .quiet (.error fault))
    | some (.ok tag) => do
        let kind ← kindOf cursor tag
        if kind = .markup then
          match _h' : passTag cursor tag with
          | none => none
          | some passed => do
              let (stopped, skipped) ← skipProlog passed
              some (stopped, ⟨.skippingDeclaration tag.start :: skipped.log, skipped.result⟩)
        else some (cursor.setPosition tag.start, .quiet (.ok ()))
termination_by cursor.remainingLength
decreasing_by exact remainingLength_passTag ‹_› ‹_›

end Prolog

/-! ## Operations that are possible -/

theorem add_eq {first second : Nat} (h : first + second ≤ Cursor.maxOffset) :
    add first second = some (first + second) := if_pos h

theorem sub_eq {first second : Nat} (h : second ≤ first) : sub first second = some (first - second) :=
  if_pos h

theorem slice_eq {bytes : Bytes} {start stop : Nat} (horder : start ≤ stop)
    (hrange : stop ≤ bytes.length) : slice bytes start stop = some (bytes.slice start stop) :=
  if_pos ⟨horder, hrange⟩

/-- Bytes are copied over as many others: `front ++ (old ++ back)` becomes
`front ++ (bytes ++ back)`. -/
theorem copy_append {front old back bytes : Bytes} {start : Nat} (hstart : front.length = start)
    (hlength : bytes.length = old.length)
    (hrange : (front ++ (old ++ back)).length ≤ Cursor.maxOffset) :
    copy (front ++ (old ++ back)) start bytes = some (front ++ (bytes ++ back)) := by
  subst hstart
  simp only [List.length_append] at hrange
  have hadd : add front.length bytes.length = some (front ++ old).length := by
    rw [add_eq (by omega), List.length_append, hlength]
  have hslice : slice (front ++ (old ++ back)) front.length (front ++ old).length = some old := by
    rw [slice_eq (by simp) (by simp), Bytes.slice, List.drop_left]
    simp
  have hdrop : (front ++ (old ++ back)).drop (front ++ old).length = back := by
    rw [← List.append_assoc, List.drop_left]
  rw [copy, hadd]
  simp only [Option.bind_eq_bind, Option.bind_some, hslice, List.take_left, hdrop,
    List.append_assoc]

end Checked

/-- Bytes that are **short**: less than half of all words are enough to count them,
`bytes.length < 2 ^ 63`. -/
def Bytes.IsShort (bytes : Bytes) : Prop := bytes.length < 0x8000000000000000

namespace Bytes.IsShort

variable {bytes other : Bytes}

/-- Offsets in short bytes leave room for sums: even three bytes behind the end is below
`Cursor.maxOffset`. -/
theorem le_maxOffset (h : bytes.IsShort) {offset : Nat} (hoffset : offset ≤ bytes.length + 3) :
    offset ≤ Cursor.maxOffset := by
  rw [Bytes.IsShort] at h
  rw [Cursor.maxOffset]
  omega

/-- Fewer bytes are short too. -/
theorem of_length_le (h : bytes.IsShort) (hle : other.length ≤ bytes.length) : other.IsShort :=
  Nat.lt_of_le_of_lt hle h

end Bytes.IsShort

namespace Checked

/-! ## Texts of short tags -/

section Texts

variable {bytes : Bytes}

/-- **Splitting** is possible: both slices lie on their side of the separator. -/
theorem splitPair_eq (hshort : bytes.IsShort) (separator : UInt8) :
    splitPair bytes separator = some (bytes.splitPair? separator) := by
  unfold splitPair Bytes.splitPair?
  rw [List.span_eq_takeWhile_dropWhile, List.takeWhile_eq_take_findIdx_not,
    List.dropWhile_eq_drop_findIdx_not]
  simp only [bne, Bool.not_not]
  cases hindex : bytes.indexOfByte? separator with
  | none =>
    -- without a separator, nothing is left behind the first side
    have hlength : bytes.findIdx (· == separator) = bytes.length :=
      List.findIdx_eq_length.mpr (List.findIdx?_eq_none_iff.mp hindex)
    rw [hlength, List.drop_length]
  | some offset =>
    obtain ⟨hlt, hoffset⟩ := List.findIdx?_eq_some_iff_findIdx_eq.mp hindex
    have hleft : bytes.slice 0 offset = bytes.take offset := by simp [Bytes.slice]
    have hright : bytes.slice (offset + 1) bytes.length = bytes.drop (offset + 1) :=
      Bytes.slice_of_length_le _ _ (Nat.le_refl _)
    have hbehind : add offset 1 = some (offset + 1) :=
      add_eq (hshort.le_maxOffset (Nat.le_trans hlt (Nat.le_add_right _ _)))
    have hmore : (Bytes.indexOfByte? (bytes.drop (offset + 1)) separator).isSome =
        (bytes.drop (offset + 1)).contains separator := by
      rw [Bytes.indexOfByte?, List.findIdx?_isSome, List.any_beq']
    simp only [slice_eq (Nat.zero_le offset) (Nat.le_of_lt hlt), hbehind,
      slice_eq hlt (Nat.le_refl _), hleft, hright, hmore, Option.bind_eq_bind, Option.bind_some,
      hoffset, List.drop_eq_getElem_cons hlt]

/-- **Trimming** is possible: `trimStart ≤ trimStop`, as the last byte that stays does not stand
before the first one. -/
theorem trim_eq (hshort : bytes.IsShort) (matching : UInt8 → Bool) :
    trim matching bytes = some (bytes.trim matching) := by
  have horder := Bytes.trimStart_le_trimStop matching bytes
  have hrange := Bytes.trimStop_le_length matching bytes
  unfold trim Bytes.trim
  cases hlast : bytes.reverse.findIdx? fun byte => !matching byte with
  | none =>
    rw [Bytes.trimStop_of_none hlast] at horder hrange ⊢
    exact slice_eq horder hrange
  | some fromEnd =>
    obtain ⟨hlt, -⟩ := List.findIdx?_eq_some_iff_findIdx_eq.mp hlast
    rw [List.length_reverse] at hlt
    -- the offset behind the last byte that stays is a sum, and a word
    have hstop : add (bytes.length - (fromEnd + 1)) 1 = some (bytes.length - fromEnd) := by
      rw [add_eq (hshort.le_maxOffset (by omega))]
      congr 1
      omega
    rw [Bytes.trimStop_of_some hlast] at horder hrange ⊢
    simp only [hstop, Option.bind_eq_bind, Option.bind_some]
    exact slice_eq horder hrange

/-- Both sides of a separator are short. -/
theorem isShort_of_splitPair? {separator : UInt8} {left right : Bytes} (hshort : bytes.IsShort)
    (h : bytes.splitPair? separator = some (left, right)) : right.IsShort := by
  obtain ⟨rfl, -⟩ := Bytes.splitPair?_eq_some_iff.mp h
  refine hshort.of_length_le ?_
  simp only [List.length_append, List.length_cons]
  omega

theorem attributeOf_eq (hshort : bytes.IsShort) :
    attributeOf bytes = some (Attribute.ofPiece? bytes) := by
  unfold attributeOf Attribute.ofPiece?
  rw [splitPair_eq hshort]
  cases hsplit : bytes.splitPair? Byte.equals with
  | none => rfl
  | some sides =>
    have htrim := trim_eq (isShort_of_splitPair? hshort hsplit) (· == Byte.quote)
    simp only [Option.bind_eq_bind, Option.bind_some, htrim, Option.map_some]

/-- Counting an attribute is possible, since there are at most `capacity` of them. -/
theorem push_eq (list : AttributeList) (attr : Attribute) : push list attr = some (list.push attr) := by
  have hcount : add list.length 1 = some (list.length + 1) := by
    refine add_eq (Nat.le_trans (Nat.succ_le_succ list.length_le) ?_)
    decide
  unfold push
  cases list.push attr with
  | error refused => rfl
  | ok pushed => simp only [hcount, Option.bind_eq_bind, Option.bind_some]

/-- Collecting is possible, by induction on the pieces, all of which are short. -/
theorem collect_eq (kept : AttributeList) {pieces : List Bytes}
    (hshort : ∀ piece ∈ pieces, piece.IsShort) :
    collect kept pieces = some (Declaration.collect kept pieces) := by
  induction pieces generalizing kept with
  | nil => rfl
  | cons piece pieces ih =>
    obtain ⟨hpiece, hpieces⟩ := List.forall_mem_cons.mp hshort
    unfold collect
    simp only [attributeOf_eq hpiece, push_eq, Option.bind_eq_bind, Option.bind_some]
    cases hattr : Attribute.ofPiece? piece with
    | none => rw [Declaration.collect_cons_of_none hattr, ← ih kept hpieces]
    | some attr =>
      cases hpush : kept.push attr with
      | ok pushed =>
        rw [Declaration.collect_cons_of_ok hattr hpush, ← ih pushed hpieces]
        simp only [hpush]
      | error refused =>
        rw [Declaration.collect_cons_of_error hattr hpush]
        simp only [hpush]

/-- No piece is longer than what was cut. -/
theorem length_le_of_mem_pieces {separator : UInt8} :
    ∀ piece ∈ (bytes.pieces separator).1 :: (bytes.pieces separator).2,
      piece.length ≤ bytes.length := by
  induction bytes with
  | nil => simp
  | cons byte rest ih =>
    obtain ⟨hfirst, hothers⟩ := List.forall_mem_cons.mp ih
    by_cases hbyte : byte = separator
    · rw [hbyte, Bytes.pieces_separator]
      intro piece hpiece
      rcases List.mem_cons.mp hpiece with rfl | hpiece
      · exact Nat.zero_le _
      · exact Nat.le_succ_of_le (ih piece hpiece)
    · rw [Bytes.pieces_cons_of_ne hbyte]
      refine List.forall_mem_cons.mpr ⟨Nat.succ_le_succ hfirst, fun piece hpiece => ?_⟩
      exact Nat.le_succ_of_le (hothers piece hpiece)

/-- The pieces of a short text are short, the name first. -/
theorem isShort_of_mem_pieces (hshort : bytes.IsShort) :
    ∀ piece ∈ Declaration.nameIn bytes :: ((Declaration.stripSlash bytes).1.pieces Byte.space).2,
      piece.IsShort := by
  have hinner : (Declaration.stripSlash bytes).1.length ≤ bytes.length := by
    unfold Declaration.stripSlash
    split
    · exact (List.dropLast_prefix bytes).length_le
    · exact Nat.le_refl _
  intro piece hpiece
  exact hshort.of_length_le (Nat.le_trans (length_le_of_mem_pieces piece hpiece) hinner)

/-- **Decoding** is possible for every short text, at any place and with any options. -/
theorem decode_eq (hshort : bytes.IsShort) (overflow : Overflow) (position : Nat) :
    decode overflow position bytes = some (Declaration.decode overflow position bytes) := by
  have hcollect := collect_eq .empty (List.forall_mem_cons.mp (isShort_of_mem_pieces hshort)).2
  unfold decode Declaration.decode
  simp only [hcollect, Option.bind_eq_bind, Option.bind_some]
  split
  · rfl
  · rcases Declaration.collect .empty _ with ⟨attributes, surplus⟩
    cases surplus with
    | false => rfl
    | true => cases overflow <;> rfl

end Texts

/-! ## Short documents -/

section Documents

variable {cursor : Cursor} {reader : Reader} {tag : Tag} {node : Node}

theorem findByteFrom_eq (hshort : cursor.document.IsShort) (start : Nat) (byte : UInt8) :
    findByteFrom cursor start byte = some (cursor.findByteFrom? start byte) := by
  unfold findByteFrom Cursor.findByteFrom?
  cases hindex : (cursor.tailFrom start).indexOfByte? byte with
  | none => rfl
  | some i =>
    have hfound : cursor.findByteFrom? start byte = some (start + i) := by
      rw [Cursor.findByteFrom?, hindex]
      rfl
    have hlt := Cursor.findByteFrom?_lt_length hfound
    simp only [add_eq (hshort.le_maxOffset (Nat.le_add_right_of_le hlt.le)), Option.bind_eq_bind,
      Option.bind_some, Option.map_some]

/-- **The next tag** is found without a sum that is too large, since all offsets are those of bytes
in a short document. -/
theorem nextTag_eq (hshort : cursor.document.IsShort) : nextTag cursor = some cursor.nextTag := by
  unfold nextTag Cursor.nextTag Cursor.findByte?
  simp only [findByteFrom_eq hshort, Option.bind_eq_bind, Option.bind_some]
  cases hstart : cursor.findByteFrom? cursor.position Byte.lessThan with
  | none => rfl
  | some start =>
    have hlt := Cursor.findByteFrom?_lt_length hstart
    have hbehind : add start 1 = some (start + 1) :=
      add_eq (hshort.le_maxOffset (Nat.le_add_right_of_le hlt))
    simp only [hbehind, Option.bind_some]
    cases cursor.findByteFrom? (start + 1) Byte.greaterThan <;> rfl

/-- What a tag is, is seen in the document. -/
theorem kindOf_eq (hshort : cursor.document.IsShort) (hnext : cursor.nextTag = .ok tag) :
    kindOf cursor tag = some (cursor.kindOf tag) := by
  have hbounds := Cursor.nextTag_bounds hnext
  have hbehind : add tag.start 1 = some (tag.start + 1) := add_eq (hshort.le_maxOffset (by omega))
  unfold kindOf
  simp only [hbehind, Option.bind_eq_bind, Option.bind_some]
  rfl

/-- A tag is passed inside of the document. -/
theorem passTag_eq (hshort : cursor.document.IsShort) (hnext : cursor.nextTag = .ok tag) :
    passTag cursor tag = some (cursor.passTag tag) := by
  have hbounds := Cursor.nextTag_bounds hnext
  have hbehind : add tag.stop 1 = some (tag.stop + 1) := add_eq (hshort.le_maxOffset (by omega))
  unfold passTag
  simp only [hbehind, Option.bind_eq_bind, Option.bind_some]
  rfl

/-- What stands in a short document is short. -/
theorem isShort_slice {document : Bytes} (hshort : document.IsShort) (start stop : Nat) :
    (document.slice start stop).IsShort := by
  refine hshort.of_length_le ?_
  rw [Bytes.length_slice]
  omega

/-- **Opening a node** is possible at the next tag: its text lies between its brackets,
`tag.start + 1 ≤ tag.stop`. -/
theorem openNode_eq (hshort : reader.document.IsShort) (hnext : reader.cursor.nextTag = .ok tag) :
    openNode reader tag = some (reader.openNode tag) := by
  have hbounds := Cursor.nextTag_bounds hnext
  have hbehind : add tag.start 1 = some (tag.start + 1) := add_eq (hshort.le_maxOffset
    (show tag.start + 1 ≤ reader.cursor.document.length + 3 by omega))
  have htext : slice reader.document (tag.start + 1) tag.stop =
      some (reader.document.slice (tag.start + 1) tag.stop) :=
    slice_eq (by omega) (Nat.le_of_lt hbounds.2.2)
  have hdecode := decode_eq (isShort_slice hshort (tag.start + 1) tag.stop)
    reader.options.overflow tag.start
  unfold openNode
  simp only [hbehind, htext, passTag_eq hshort hnext, hdecode, Option.bind_eq_bind, Option.bind_some]
  rfl

/-- Nodes that are opened in a short document have short names. -/
theorem isShort_of_openNode (hshort : reader.document.IsShort)
    (h : (reader.openNode tag).2.result = .ok node) : node.name.IsShort := by
  have hdecode : reader.cursor.decodeTag reader.options.overflow tag = .ok node := h
  obtain ⟨hdecoded, -⟩ := Cursor.decodeTag_eq_ok_iff.mp hdecode
  obtain ⟨-, -, hdeclaration⟩ := Declaration.result_decode_eq_ok_iff.mp hdecoded
  have hname : node.name = Declaration.nameIn (reader.document.slice (tag.start + 1) tag.stop) :=
    congrArg Declaration.name hdeclaration
  rw [hname]
  exact isShort_of_mem_pieces (isShort_slice hshort _ _) _ List.mem_cons_self

/-- **A closing tag fits into the buffer** when `node.name.length ≤ maxNameLength`, and then it is
`node.closingTag`. -/
theorem closingTag_eq (h : node.name.length ≤ maxNameLength) :
    closingTag node = some node.closingTag := by
  -- the buffer is cut where the parts of the tag go
  let rest : Bytes := List.replicate (maxNameLength - node.name.length) 0
  let front : Bytes := [Byte.lessThan, Byte.slash]
  have hbuffer : List.replicate bufferLength (0 : UInt8) =
      [] ++ ([0, 0] ++ (List.replicate node.name.length 0 ++ ([0] ++ rest))) := by
    have hlength : bufferLength = 2 + (node.name.length + (1 + (maxNameLength - node.name.length))) := by
      rw [bufferLength]
      omega
    rw [hlength, List.replicate_add, List.replicate_add, List.replicate_add]
    rfl
  have hrest : node.name.length + rest.length = maxNameLength := by
    rw [List.length_replicate]
    omega
  have hsmall : maxNameLength + 3 ≤ Cursor.maxOffset := by decide
  have hfront : copy (List.replicate bufferLength 0) 0 [Byte.lessThan, Byte.slash] =
      some (front ++ (List.replicate node.name.length 0 ++ ([0] ++ rest))) := by
    rw [hbuffer]
    refine copy_append rfl rfl ?_
    simp only [List.length_append, List.length_replicate, List.length_cons, List.length_nil]
    omega
  have hname : copy (front ++ (List.replicate node.name.length 0 ++ ([0] ++ rest))) 2 node.name =
      some ((front ++ node.name) ++ ([0] ++ rest)) := by
    rw [List.append_assoc]
    refine copy_append rfl List.length_replicate.symm ?_
    simp only [front, List.length_append, List.length_replicate, List.length_cons, List.length_nil]
    omega
  have hbehind : add 2 node.name.length = some (2 + node.name.length) := add_eq (by omega)
  have hback : copy ((front ++ node.name) ++ ([0] ++ rest)) (2 + node.name.length)
      [Byte.greaterThan] = some ((front ++ node.name) ++ ([Byte.greaterThan] ++ rest)) := by
    refine copy_append List.length_append rfl ?_
    simp only [front, List.length_append, List.length_cons, List.length_nil]
    omega
  have hlength : add node.name.length 3 = some (node.name.length + 3) := add_eq (by omega)
  have htag : (front ++ node.name) ++ ([Byte.greaterThan] ++ rest) = node.closingTag ++ rest := by
    simp [front, Node.closingTag]
  have hslice : slice (node.closingTag ++ rest) 0 (node.name.length + 3) = some node.closingTag := by
    rw [slice_eq (Nat.zero_le _) (by simp), Bytes.slice, List.drop_zero, Nat.sub_zero,
      List.take_left' node.length_closingTag]
  unfold closingTag
  simp only [Option.bind_eq_bind, Option.bind_some, hfront, hname, hbehind, hback, hlength, htag,
    hslice]

/-- There would be no room for a longer name. -/
example : closingTag ⟨⟨List.replicate 257 0x61, .empty, false⟩, 0⟩ = none := by decide +kernel

/-- A needle that is not empty is found without a sum that is too large: it occurs inside of the
document, or not at all. -/
theorem findFrom_eq (hshort : cursor.document.IsShort) (start : Nat) {needle : Bytes}
    (hneedle : needle ≠ []) : findFrom cursor start needle = some (cursor.findFrom? start needle) := by
  unfold findFrom Cursor.findFrom?
  cases hindex : (cursor.tailFrom start).indexOf? needle with
  | none => rfl
  | some i =>
    have hfound : cursor.findFrom? start needle = some (start + i) := by
      rw [Cursor.findFrom?, hindex]
      rfl
    -- a needle that is not empty ends inside of the document, so its place is a word
    have hfits := (Cursor.findFrom?_eq_some_iff.mp hfound).2.1.length_le
    have hpositive := List.length_pos_iff.mpr hneedle
    rw [Cursor.tailFrom, List.length_drop] at hfits
    have hoffset : add start i = some (start + i) := add_eq (hshort.le_maxOffset (by omega))
    simp only [hoffset, Option.bind_eq_bind, Option.bind_some, Option.map_some]

/-- **The closing tag of any node with a short name** is looked for without a sum that is too large,
and without copying a name for which there is no room. The node's offset may be anything. -/
theorem closingTagOf_eq (hshort : cursor.document.IsShort) (hname : node.name.IsShort) :
    closingTagOf cursor node = some (cursor.closingTagOf node) := by
  have hlength : add node.name.length 3 = some node.closingTag.length := by
    rw [node.length_closingTag]
    exact add_eq (hname.le_maxOffset (Nat.le_refl _))
  have hneedle := node.closingTag_ne_nil
  unfold closingTagOf Cursor.closingTagOf
  simp only [hlength, Option.bind_eq_bind, Option.bind_some]
  split
  · rfl
  · have hlong : bufferLength < node.closingTag.length ↔ maxNameLength < node.name.length := by
      rw [node.length_closingTag, bufferLength]
      omega
    simp only [hlong]
    split
    · rfl
    · rename_i hroom
      simp only [closingTag_eq (Nat.not_lt.mp hroom), findFrom_eq hshort _ hneedle,
        Option.bind_some]
      cases cursor.findFrom? node.bodyStart node.closingTag <;> rfl

/-- **Reading a body** is possible for every node with a short name, wherever its body starts: the
closing tag is only ever found at `node.bodyStart` or behind it. -/
theorem readBody_eq (hshort : reader.document.IsShort) (hname : node.name.IsShort) :
    readBody reader node = some (reader.readBody node) := by
  unfold readBody Reader.readBody
  split
  · rfl
  · simp only [closingTagOf_eq hshort hname, Option.bind_eq_bind, Option.bind_some]
    cases hfound : reader.cursor.closingTagOf node with
    | error fault => rfl
    | ok offset =>
      -- the closing tag was found behind the body's start, inside of the document
      obtain ⟨-, hfind⟩ := Cursor.closingTagOf_eq_ok_iff.mp hfound
      obtain ⟨hstart, htag, -⟩ := Cursor.findFrom?_eq_some_iff.mp hfind
      have hfits := htag.length_le
      rw [Cursor.tailFrom, List.length_drop, node.length_closingTag] at hfits
      have hinside : offset + (node.name.length + 3) ≤ reader.document.length := by
        show offset + (node.name.length + 3) ≤ reader.cursor.document.length
        omega
      have hlength : add node.name.length 3 = some (node.name.length + 3) :=
        add_eq (hname.le_maxOffset (Nat.le_refl _))
      have hstop : add offset (node.name.length + 3) = some (offset + (node.name.length + 3)) :=
        add_eq (hshort.le_maxOffset (Nat.le_add_right_of_le hinside))
      have hbody : slice reader.document node.bodyStart offset =
          some (reader.document.slice node.bodyStart offset) :=
        slice_eq hstart (Nat.le_trans (Nat.le_add_right _ _) hinside)
      simp only [hlength, hstop, hbody, Option.bind_some, node.length_closingTag]

/-- Bodies in a short document are short, being slices of it. -/
theorem isShort_of_readBody {body : Bytes} (hshort : reader.document.IsShort)
    (h : (reader.readBody node).2.result = .ok body) : body.IsShort := by
  unfold Reader.readBody at h
  split at h
  · cases h
    exact hshort.of_length_le (Nat.zero_le _)
  · cases hfound : reader.cursor.closingTagOf node with
    | error fault =>
      rw [hfound] at h
      cases h
    | ok offset =>
      rw [hfound] at h
      cases h
      exact isShort_slice hshort _ _

/-- **Skipping a prolog** is possible, by induction on its declarations. -/
theorem skipProlog_eq (hshort : cursor.document.IsShort) :
    skipProlog cursor = some cursor.skipProlog := by
  have hchecked := nextTag_eq hshort
  fun_induction Cursor.skipProlog cursor with
  | case1 cursor heof => rw [skipProlog, if_pos heof]
  | case2 cursor hmore fault hnext =>
    rw [hnext] at hchecked
    rw [skipProlog, if_neg hmore]
    split
    all_goals rename_i hresult; rw [hchecked] at hresult; cases hresult
    rfl
  -- the checked definition recurses on a cursor that it has only if the checked move succeeds
  | case3 cursor hmore tag hnext hkind stopped skipped hskip ih =>
    have hpassed := passTag_eq hshort hnext
    rw [hnext] at hchecked
    rw [skipProlog, if_neg hmore]
    split
    all_goals rename_i hresult; rw [hchecked] at hresult; cases hresult
    simp only [kindOf_eq hshort hnext, Option.bind_eq_bind, Option.bind_some, hkind, if_true]
    split
    all_goals rename_i hresult; rw [hpassed] at hresult; cases hresult
    rw [ih hshort (nextTag_eq hshort), hskip]
    rfl
  | case4 cursor hmore tag hnext hkind =>
    rw [hnext] at hchecked
    rw [skipProlog, if_neg hmore]
    split
    all_goals rename_i hresult; rw [hchecked] at hresult; cases hresult
    simp only [kindOf_eq hshort hnext, Option.bind_eq_bind, Option.bind_some, if_neg hkind]

/-- Looking at what is left is possible: `position_le` says that the place is in the document. -/
theorem inspect_eq (reader : Reader) : inspect reader = some reader := by
  have hplace : reader.position ≤ reader.document.length := reader.cursor.position_le
  unfold inspect
  simp only [slice_eq hplace (Nat.le_refl _), sub_eq hplace, Option.bind_eq_bind, Option.bind_some]

end Documents

end Checked

end TagWalk
