import TagWalk.Bytes.Basic

/-! # Searching byte strings

The first place of a byte and the first place of a **needle** (a byte string that may overlap
itself). Both answer with an offset from the front of the searched bytes.

* **`indexOfByte?`**, **`indexOf?`** — the two searches, each a plain scan from the front.

Readers leave both to a library, as `memchr` and `memmem`. The two definitions stand for these: they
answer as the library is documented to do, with the first match or with nothing, and the way in which
it comes to its answer is not modelled. -/

namespace TagWalk.Bytes

/-- Offset of the first occurrence of `byte`: the least `i` with `bytes[i]? = some byte`. -/
def indexOfByte? (bytes : Bytes) (byte : UInt8) : Option Nat := bytes.findIdx? (· == byte)

/-- **Offset of the first occurrence of `needle`**: the least `i` for which `needle` is a prefix of
`bytes.drop i`. Every offset is tried in turn, so a partial match that fails hides no later one; the
empty needle occurs at the very front. -/
def indexOf? (bytes needle : Bytes) : Option Nat := go 0 bytes
where
  /-- The search from the bytes left after the first `passed` ones. -/
  go (passed : Nat) : Bytes → Option Nat
    | [] => if needle.isEmpty then some passed else none
    | byte :: rest =>
        if needle.isPrefixOf (byte :: rest) then some passed else go (passed + 1) rest

/-- Counting can start anywhere: what was `passed` before is added to the answer that a search from
`0` gives. -/
theorem indexOf?_go (needle : Bytes) (passed : Nat) (bytes : Bytes) :
    indexOf?.go needle passed bytes = (bytes.indexOf? needle).map (passed + ·) := by
  unfold indexOf?
  suffices h : ∀ (bytes : Bytes) (a b : Nat),
      indexOf?.go needle (a + b) bytes = (indexOf?.go needle b bytes).map (a + ·) from
    h bytes passed 0
  intro bytes
  induction bytes with
  | nil => intro a b; simp only [indexOf?.go]; split <;> rfl
  | cons byte rest ih =>
    intro a b
    simp only [indexOf?.go]
    split
    · rfl
    · exact ih a (b + 1)

/-- Where nothing is left, only the empty needle occurs. -/
@[simp] theorem indexOf?_nil (needle : Bytes) :
    indexOf? [] needle = if needle.isEmpty then some 0 else none := rfl

/-- A needle occurs at the front, or else where it first occurs behind the first byte: the recursion
of `indexOf?.go`, without its counter. -/
theorem indexOf?_cons (needle : Bytes) (byte : UInt8) (rest : Bytes) :
    indexOf? (byte :: rest) needle =
      if needle.isPrefixOf (byte :: rest) then some 0 else (rest.indexOf? needle).map (1 + ·) := by
  rw [indexOf?, indexOf?.go]
  split
  · rfl
  · exact indexOf?_go needle 1 rest

/-- The empty needle is found at once. -/
@[simp] theorem indexOf?_empty (bytes : Bytes) : bytes.indexOf? [] = some 0 := by
  cases bytes <;> rfl

end TagWalk.Bytes
