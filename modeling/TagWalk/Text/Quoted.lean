/-! # Quoted text

The written form of a text inside double quotes: quote, backslash and control characters are
escaped, and every other character stands for itself.

Some writers also escape characters that combine with the one before, or that do not print. Here they
stand for themselves, as `escape` says; the quoted texts are shown in log records only. -/

namespace TagWalk.Quoted

/-- Whether a character is a **control character**: U+0000 to U+001F and U+007F to U+009F. -/
def isControl (c : Char) : Bool := c.toNat < 0x20 || (0x7F ≤ c.toNat && c.toNat < 0xA0)

/-- The escape of a character by its number: `\u` and its lower-case hexadecimal digits in
braces. -/
def escapeNumber (c : Char) : List Char :=
  ['\\', 'u', Char.ofNat 0x7B] ++ Nat.toDigits 16 c.toNat ++ [Char.ofNat 0x7D]

/-- **A character as it is written between quotes.** Quote, backslash and tab, line feed, carriage
return and NUL have two-character escapes, and every other control character is written by its
number. Nothing else is escaped: combining marks, the soft hyphen, zero-width spaces and whatever
else does not print stand for themselves. -/
def escape (c : Char) : List Char :=
  if c = '"' then ['\\', '"']
  else if c = '\\' then ['\\', '\\']
  else if c = '\t' then ['\\', 't']
  else if c = '\n' then ['\\', 'n']
  else if c = '\r' then ['\\', 'r']
  else if c = Char.ofNat 0 then ['\\', '0']
  else if isControl c then escapeNumber c
  else [c]

/-- **A text in double quotes**, with each of its characters escaped where `escape` does so. -/
def quote (text : String) : String :=
  String.ofList ('"' :: text.toList.flatMap escape ++ ['"'])

end TagWalk.Quoted
