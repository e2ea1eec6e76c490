/-! # Byte strings

A document, an element name and an attribute value are all **byte strings**: nothing here assumes
that they are text. This file fixes the type, names the eight ASCII bytes that have a meaning in
markup and cuts out the bytes between two offsets. -/

namespace TagWalk

/-- A **byte string**: a list, so that front and rest can be taken apart by recursion. -/
abbrev Bytes := List UInt8

namespace Byte

/-- The byte `<`, which opens a tag. -/
abbrev lessThan : UInt8 := 0x3C

/-- The byte `>`, which ends a tag. -/
abbrev greaterThan : UInt8 := 0x3E

/-- The byte `/`, which marks a closing tag at its front and a self-closing one at its end. -/
abbrev slash : UInt8 := 0x2F

/-- The byte `?`, which opens a processing instruction. -/
abbrev question : UInt8 := 0x3F

/-- The byte `!`, which opens a markup declaration. -/
abbrev bang : UInt8 := 0x21

/-- The space byte, which separates the pieces of a declaration. -/
abbrev space : UInt8 := 0x20

/-- The byte `=`, which joins an attribute's name to its value. -/
abbrev equals : UInt8 := 0x3D

/-- The byte `"`, which may stand around an attribute's value. -/
abbrev quote : UInt8 := 0x22

end Byte

namespace Bytes

/-- The bytes from offset `start` up to, and not including, offset `stop`. Offsets past the end of
`bytes` count as its end, and a `stop` before `start` gives nothing. -/
def slice (bytes : Bytes) (start stop : Nat) : Bytes := (bytes.drop start).take (stop - start)

@[simp] theorem length_slice (bytes : Bytes) (start stop : Nat) :
    (bytes.slice start stop).length = min (stop - start) (bytes.length - start) := by
  simp [slice]

/-- A slice that ends at or past the end of the bytes is a tail of them: `bytes.drop start`. -/
theorem slice_of_length_le (bytes : Bytes) (start : Nat) {stop : Nat} (h : bytes.length ≤ stop) :
    bytes.slice start stop = bytes.drop start := by
  rw [slice, List.take_of_length_le]
  simp only [List.length_drop]
  omega

/-- Bytes behind `stop` do not show in a slice that ends inside the document, so `bytes ++ more`
gives the slice that `bytes` gives. -/
theorem slice_append (bytes more : Bytes) (start : Nat) {stop : Nat} (h : stop ≤ bytes.length) :
    Bytes.slice (bytes ++ more) start stop = bytes.slice start stop := by
  by_cases hs : stop ≤ start
  · simp [slice, Nat.sub_eq_zero_of_le hs]
  · rw [slice, slice, List.drop_append_of_le_length (by omega),
      List.take_append_of_le_length (by simp only [List.length_drop]; omega)]

end Bytes

end TagWalk
