import TagWalk.Bytes.Basic

/-! # Bytes as UTF-8 text

Names and values are bytes; where they are shown to a reader they become text. The reading machine
`feed` takes one byte at a time and puts out **units**: a character for each well-formed sequence,
and `none` for each *maximal ill-formed part*, the longest run of bytes that begins a sequence and
cannot be completed, or a single byte that begins none. Surrogates, overlong sequences and values
above U+10FFFF are ruled out by the range of the second byte.

* **`decode?`** — the text, when every unit is a character.
* **`lossy`** — the text with U+FFFD for each ill-formed part.
* **`encode`** — the bytes of a text. -/

namespace TagWalk.Utf8

/-- A sequence of which the first bytes were read, and what may continue it. -/
structure Pending where
  /-- The value of the bits read so far. -/
  value : Nat
  /-- How many bytes follow the next one. -/
  after : Nat
  /-- The least next byte that continues the sequence. -/
  least : UInt8
  /-- The greatest next byte that continues the sequence. -/
  greatest : UInt8

/-- **What a byte at the start of a sequence means**: a character of its own, the lead of a longer
sequence, or neither. Only the bytes C2 to F4 lead, and four of them narrow the range of the byte
behind them. -/
def lead (byte : UInt8) : List (Option Char) × Option Pending :=
  let value := byte.toNat
  if byte ≤ 0x7F then ([some (Char.ofNat value)], none)
  else if byte < 0xC2 then ([none], none)
  else if byte ≤ 0xDF then ([], some ⟨value - 0xC0, 0, 0x80, 0xBF⟩)
  -- a smaller second byte would spell a value below U+0800
  else if byte = 0xE0 then ([], some ⟨0, 1, 0xA0, 0xBF⟩)
  -- a greater one would spell a surrogate
  else if byte = 0xED then ([], some ⟨0xD, 1, 0x80, 0x9F⟩)
  else if byte ≤ 0xEF then ([], some ⟨value - 0xE0, 1, 0x80, 0xBF⟩)
  -- a smaller one would spell a value below U+10000
  else if byte = 0xF0 then ([], some ⟨0, 2, 0x90, 0xBF⟩)
  else if byte ≤ 0xF3 then ([], some ⟨value - 0xF0, 2, 0x80, 0xBF⟩)
  -- a greater one would spell a value above U+10FFFF
  else if byte = 0xF4 then ([], some ⟨4, 2, 0x80, 0x8F⟩)
  else ([none], none)

/-- The sequence one continuation byte further: complete, or waiting for a byte from 80 to BF. -/
def Pending.continue (pending : Pending) (byte : UInt8) : List (Option Char) × Option Pending :=
  let value := pending.value * 64 + (byte.toNat - 0x80)
  match pending.after with
  | 0 => ([some (Char.ofNat value)], none)
  | after + 1 => ([], some ⟨value, after, 0x80, 0xBF⟩)

/-- **One step of the reading machine**: the units that `byte` completes, and what is then pending.
A byte that does not continue the pending sequence ends it as ill-formed and is read afresh. -/
def feed : Option Pending → UInt8 → List (Option Char) × Option Pending
  | none, byte => lead byte
  | some pending, byte =>
      if pending.least ≤ byte ∧ byte ≤ pending.greatest then pending.continue byte
      else
        let (units, next) := lead byte
        (none :: units, next)

/-- The units of `bytes`, read with a sequence pending; one still pending at the end is
ill-formed. -/
def unitsFrom : Option Pending → Bytes → List (Option Char)
  | none, [] => []
  | some _, [] => [none]
  | pending, byte :: rest =>
      let (units, next) := feed pending byte
      units ++ unitsFrom next rest

/-- The units of a byte string, read with nothing pending. -/
def units (bytes : Bytes) : List (Option Char) := unitsFrom none bytes

/-- A sequence of three bytes, cut off before its last one, is one ill-formed part. -/
example : units [0xE2, 0x82, 0x41] = [none, some 'A'] := by decide

/-- The two bytes of an overlong form are two ill-formed parts. -/
example : units [0xE0, 0x80] = [none, none] := by decide

/-- The list without its `some`s, when it has no `none`. -/
def allSome? : List (Option Char) → Option (List Char)
  | [] => some []
  | none :: _ => none
  | some c :: rest => (allSome? rest).map (c :: ·)

/-- **The text of a byte string**, when it is well-formed UTF-8, that is when no unit is `none`. -/
def decode? (bytes : Bytes) : Option String := (allSome? (units bytes)).map String.ofList

/-- **The text of any byte string**, each maximal ill-formed part shown as U+FFFD. -/
def lossy (bytes : Bytes) : String :=
  String.ofList ((units bytes).map (·.getD (Char.ofNat 0xFFFD)))

/-- The UTF-8 bytes of a text, one to four of them for each character. -/
def encode (text : String) : Bytes := text.toList.flatMap String.utf8EncodeChar

end TagWalk.Utf8
