import TagWalk.Cursor
import TagWalk.Fault

/-! # Tags

A **tag** is a place in a document: the offsets of a `<` and of the first `>` behind it. The byte
behind the `<` says what the tag is. -/

namespace TagWalk

/-- The place of one tag: `document[start]` is its `<` and `document[stop]` its `>`. -/
structure Tag where
  /-- Offset of the `<`. -/
  start : Nat
  /-- Offset of the `>`. -/
  stop : Nat
  deriving DecidableEq

/-- What a tag is. -/
inductive TagKind
  /-- A declaration or comment (`<!`) or a processing instruction (`<?`). -/
  | markup
  /-- A closing tag (`</`). -/
  | closing
  /-- The opening tag of an element. -/
  | element
  deriving DecidableEq

/-- What a tag is, by the byte behind its `<`: `?` and `!` make it markup, `/` makes it a closing
tag, and anything else, or nothing, an element. -/
def TagKind.ofByte? : Option UInt8 → TagKind
  | some byte =>
      if byte = Byte.question ∨ byte = Byte.bang then .markup
      else if byte = Byte.slash then .closing
      else .element
  | none => .element

namespace Cursor

/-- **The next tag** at or after the cursor: the first `<`, and the first `>` behind it, even inside
quotes. Without a `<`, the cursor itself is reported; without a `>` behind it, the place of the `<`
is. -/
def nextTag (cursor : Cursor) : Except Fault Tag :=
  match cursor.findByte? Byte.lessThan with
  | none => .error (.missingTagStart cursor.position)
  | some start =>
      match cursor.findByteFrom? (start + 1) Byte.greaterThan with
      | none => .error (.missingTagEnd start)
      | some stop => .ok ⟨start, stop⟩

/-- What the tag at a place is, by `TagKind.ofByte?` of the byte at `tag.start + 1`. -/
def kindOf (cursor : Cursor) (tag : Tag) : TagKind := .ofByte? (cursor.byteAt? (tag.start + 1))

/-- The cursor just past a tag, at `tag.stop + 1`. -/
def passTag (cursor : Cursor) (tag : Tag) : Cursor := cursor.setPosition (tag.stop + 1)

/-- **A tag lies ahead of the cursor and inside the document**: `cursor.position ≤ tag.start`,
`tag.start < tag.stop` and `tag.stop < cursor.document.length`. -/
theorem nextTag_bounds {cursor : Cursor} {tag : Tag} (h : cursor.nextTag = .ok tag) :
    cursor.position ≤ tag.start ∧ tag.start < tag.stop ∧ tag.stop < cursor.document.length := by
  unfold nextTag at h
  split at h
  · cases h
  · rename_i start hstart
    split at h
    · cases h
    · rename_i stop hstop
      cases h
      exact ⟨(findByteFrom?_eq_some hstart).1, (findByteFrom?_eq_some hstop).1,
        findByteFrom?_lt_length hstop⟩

/-- Passing the next tag leaves fewer bytes, which is why loops over tags end. -/
theorem remainingLength_passTag {cursor : Cursor} {tag : Tag} (h : cursor.nextTag = .ok tag) :
    (cursor.passTag tag).remainingLength < cursor.remainingLength := by
  obtain ⟨hstart, hstop, hlength⟩ := nextTag_bounds h
  simp only [passTag, remainingLength, position_setPosition, document_setPosition]
  omega

end Cursor

end TagWalk
