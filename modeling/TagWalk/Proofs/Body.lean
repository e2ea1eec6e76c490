import TagWalk.Proofs.Search
import TagWalk.Reader.Body

/-! # Bodies that are read

Reading a body needs the cursor alone; the reader adds the mark. What comes of it is told here once,
for whoever reads.

* **`Cursor.closingTagOf_eq_ok_iff`** — where a closing tag is found.
* **`Cursor.readBody`** — the body of a node, and the cursor behind it.
* **`Reader.readBody_of_ok`**, **`Reader.readBody_of_error`** — a reader does just that. -/

namespace TagWalk

namespace Cursor

variable {cursor after : Cursor} {node : Node} {body : Bytes}

/-- **The closing tag of a node is found** where it first occurs, if the name is of at most
`maxNameLength` bytes. That it fits into the rest of the document goes without saying then. -/
theorem closingTagOf_eq_ok_iff {offset : Nat} :
    cursor.closingTagOf node = .ok offset ↔
      node.name.length ≤ maxNameLength ∧
        cursor.findFrom? node.bodyStart node.closingTag = some offset := by
  simp only [closingTagOf]
  by_cases hroom : (cursor.tailFrom node.bodyStart).length < node.closingTag.length
  · -- a tag that does not fit does not occur
    have hnone : cursor.findFrom? node.bodyStart node.closingTag ≠ some offset := by
      intro hfound
      obtain ⟨hstart, htag, -⟩ := findFrom?_eq_some_iff.mp hfound
      have hfits := htag.length_le
      simp only [tailFrom, List.length_drop] at hroom hfits
      omega
    rw [if_pos hroom]
    simp [hnone]
  · rw [if_neg hroom]
    by_cases hlong : maxNameLength < node.name.length
    · simp [if_pos hlong, Nat.not_le.mpr hlong]
    · rw [if_neg hlong]
      cases hfound : cursor.findFrom? node.bodyStart node.closingTag with
      | none => simp
      | some found => simp [Nat.not_lt.mp hlong]

/-- **The body of a node, and the cursor behind it**, without the reader around the cursor. A node
that closes itself has an empty body, and the cursor never moves back. -/
def readBody (cursor : Cursor) (node : Node) : Except Fault (Bytes × Cursor) :=
  if node.selfClosing then .ok ([], cursor)
  else (cursor.closingTagOf node).map fun offset =>
    (cursor.document.slice node.bodyStart offset,
      cursor.setPosition (max cursor.position (offset + node.closingTag.length)))

/-- A node that closes itself has an empty body. -/
theorem readBody_of_selfClosing (h : node.selfClosing = true) :
    cursor.readBody node = .ok ([], cursor) := if_pos h

/-- The body of any other node ends in front of its closing tag:
`cursor.document.slice node.bodyStart offset` with the `offset` of `closingTagOf`. -/
theorem readBody_of_open (h : node.selfClosing = false) :
    cursor.readBody node = (cursor.closingTagOf node).map fun offset =>
      (cursor.document.slice node.bodyStart offset,
        cursor.setPosition (max cursor.position (offset + node.closingTag.length))) :=
  if_neg (by simp [h])

/-- **A body cannot be read** exactly when a closing tag is looked for in vain, and the fault is
that of `closingTagOf`. -/
theorem readBody_eq_error_iff {fault : Fault} :
    cursor.readBody node = .error fault ↔
      node.selfClosing = false ∧ cursor.closingTagOf node = .error fault := by
  cases hclosed : node.selfClosing with
  | true => simp [readBody_of_selfClosing hclosed]
  | false =>
    rw [readBody_of_open hclosed]
    cases cursor.closingTagOf node with
    | error other => simp [Except.map]
    | ok offset => simp [Except.map]

/-- A body is read from the same document, and the cursor does not move back. -/
theorem document_readBody (h : cursor.readBody node = .ok (body, after)) :
    after.document = cursor.document ∧ cursor.position ≤ after.position := by
  unfold readBody at h
  split at h
  · cases h
    exact ⟨rfl, Nat.le_refl _⟩
  · cases hfound : cursor.closingTagOf node with
    | error fault =>
      rw [hfound] at h
      cases h
    | ok offset =>
      rw [hfound] at h
      cases h
      -- the cursor goes to the greater of two places, and one of them is its own
      exact ⟨rfl, Nat.le_min.mpr ⟨Nat.le_max_left _ _, cursor.position_le⟩⟩

/-- **A body stands in the document with its closing tag behind it**: `body ++ node.closingTag`
begins `document.drop node.bodyStart`, and the cursor is past both. -/
theorem prefix_of_readBody (hopen : node.selfClosing = false)
    (h : cursor.readBody node = .ok (body, after)) :
    body ++ node.closingTag <+: cursor.document.drop node.bodyStart ∧
      node.bodyStart + body.length + node.closingTag.length ≤ after.position := by
  rw [readBody_of_open hopen] at h
  cases hfound : cursor.closingTagOf node with
  | error fault =>
    rw [hfound] at h
    cases h
  | ok offset =>
    rw [hfound] at h
    cases h
    obtain ⟨-, hfind⟩ := closingTagOf_eq_ok_iff.mp hfound
    obtain ⟨hstart, htag, -⟩ := findFrom?_eq_some_iff.mp hfind
    have hfits := htag.length_le
    have hpositive : 0 < node.closingTag.length := by
      rw [Node.length_closingTag]
      omega
    simp only [tailFrom, List.length_drop] at hfits
    have hlength : (cursor.document.slice node.bodyStart offset).length = offset - node.bodyStart := by
      rw [Bytes.length_slice]
      omega
    refine ⟨?_, ?_⟩
    · -- the body is what stands in front of the tag
      obtain ⟨rest, hrest⟩ := htag
      refine ⟨rest, ?_⟩
      rw [List.append_assoc, hrest, tailFrom, Bytes.slice]
      have hdrop : cursor.document.drop offset =
          (cursor.document.drop node.bodyStart).drop (offset - node.bodyStart) := by
        rw [List.drop_drop]
        congr 1
        omega
      rw [hdrop, List.take_append_drop]
    · rw [hlength, position_setPosition]
      omega

end Cursor

namespace Reader

variable {reader : Reader} {node : Node}

/-- A body that cannot be read leaves the reader as it is: `(reader.readBody node).1 = reader`. -/
theorem readBody_of_error {fault : Fault} (h : reader.cursor.readBody node = .error fault) :
    (reader.readBody node).1 = reader ∧ (reader.readBody node).2.result = .error fault := by
  unfold Cursor.readBody at h
  unfold readBody
  split at h
  · cases h
  · rename_i hopen
    rw [if_neg hopen]
    cases hfound : reader.cursor.closingTagOf node with
    | error other =>
      rw [hfound] at h
      cases h
      exact ⟨rfl, rfl⟩
    | ok offset =>
      rw [hfound] at h
      cases h

/-- **A body that is read** moves the reader to the cursor behind it, and marks the node. Nothing is
logged. -/
theorem readBody_of_ok {body : Bytes} {cursor : Cursor}
    (h : reader.cursor.readBody node = .ok (body, cursor)) :
    reader.readBody node = ({ reader with cursor }.markClosed node, .quiet (.ok body)) := by
  unfold Cursor.readBody at h
  unfold readBody
  split at h
  · rename_i hclosed
    cases h
    rw [if_pos hclosed]
  · rename_i hopen
    rw [if_neg hopen]
    cases hfound : reader.cursor.closingTagOf node with
    | error fault =>
      rw [hfound] at h
      cases h
    | ok offset =>
      rw [hfound] at h
      cases h
      rfl

end Reader

end TagWalk
