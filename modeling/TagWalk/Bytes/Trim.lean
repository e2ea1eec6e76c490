import TagWalk.Bytes.Basic

/-! # Trimming byte strings

`trim` cuts away the longest runs of matching bytes at both ends. It works by two independent scans
for a byte that stays: one from the front, one from the back. -/

namespace TagWalk.Bytes

/-- Offset of the first byte that stays, and `bytes.length` when every byte matches. -/
def trimStart (matching : UInt8 → Bool) (bytes : Bytes) : Nat :=
  bytes.findIdx fun byte => !matching byte

/-- Offset just past the last byte that stays, found from the back. When every byte matches it is
`trimStart`, so that nothing is left between the two. -/
def trimStop (matching : UInt8 → Bool) (bytes : Bytes) : Nat :=
  match bytes.reverse.findIdx? fun byte => !matching byte with
  | none => bytes.trimStart matching
  | some fromEnd => bytes.length - fromEnd

/-- **The bytes without their matching ends**: those from `trimStart` up to `trimStop`. A matching
byte between two that stay is kept. -/
def trim (matching : UInt8 → Bool) (bytes : Bytes) : Bytes :=
  bytes.slice (bytes.trimStart matching) (bytes.trimStop matching)

end TagWalk.Bytes
