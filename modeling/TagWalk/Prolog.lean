import TagWalk.LogRecord
import TagWalk.Tag

/-! # Prologs

What stands before a document's root element: declarations, comments and processing instructions,
with any text between them. Skipping ends at the first tag of another kind, or at the end of the
document. -/

namespace TagWalk.Cursor

/-- **Skip the prolog**, one tag after another as long as they are markup. The cursor ends on the
`<` of the first tag that opens or closes an element, or at the end of the document; a failure of
`nextTag` leaves it behind the last declaration. -/
def skipProlog (cursor : Cursor) : Cursor × Logged Unit :=
  if cursor.isEof then (cursor, .quiet (.ok ()))
  else
    match _h : cursor.nextTag with
    | .error fault => (cursor, .quiet (.error fault))
    | .ok tag =>
        if cursor.kindOf tag = .markup then
          let (stopped, skipped) := skipProlog (cursor.passTag tag)
          (stopped, ⟨.skippingDeclaration tag.start :: skipped.log, skipped.result⟩)
        else (cursor.setPosition tag.start, .quiet (.ok ()))
termination_by cursor.remainingLength
decreasing_by exact remainingLength_passTag ‹_›

end TagWalk.Cursor
