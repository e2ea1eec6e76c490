import TagWalk.Bytes.Basic

/-! # Cutting byte strings at a separator

`pieces` cuts at every separator and keeps empty pieces; `splitPair?` accepts only bytes with
exactly one separator. -/

namespace TagWalk.Bytes

/-- **The pieces between separators**: the first one, and the list of those behind it. Neighbouring,
leading and trailing separators give empty pieces, so there is one piece more than separators, and
the empty byte string has the piece `[]`. -/
def pieces (separator : UInt8) : Bytes → Bytes × List Bytes
  | [] => ([], [])
  | byte :: rest =>
      let (first, others) := pieces separator rest
      if byte = separator then ([], first :: others) else (byte :: first, others)

@[simp] theorem pieces_nil (separator : UInt8) : pieces separator [] = ([], []) := rfl

/-- At a separator the current piece ends: it is `[]`, and the first piece behind it joins the
others. -/
@[simp] theorem pieces_separator (separator : UInt8) (rest : Bytes) :
    pieces separator (separator :: rest) =
      ([], (pieces separator rest).1 :: (pieces separator rest).2) := by
  simp [pieces]

/-- Any other byte belongs to the current piece. -/
theorem pieces_cons_of_ne {separator byte : UInt8} (h : byte ≠ separator) (rest : Bytes) :
    pieces separator (byte :: rest) =
      (byte :: (pieces separator rest).1, (pieces separator rest).2) := by
  simp [pieces, h]

/-- **The two sides of the only separator**: `left ++ separator :: right` gives `(left, right)` when
neither side has another separator, and bytes with none or with more than one give nothing. -/
def splitPair? (bytes : Bytes) (separator : UInt8) : Option (Bytes × Bytes) :=
  match bytes.span (· != separator) with
  | (_, []) => none
  | (left, _ :: right) => if right.contains separator then none else some (left, right)

end TagWalk.Bytes
