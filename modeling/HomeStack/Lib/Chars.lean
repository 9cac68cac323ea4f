import HomeStack.Lib.Text

/-! Classes of characters, the value of a hexadecimal digit, and the escapes of
a text in a message. -/

namespace Text

def isControl (c : Char) : Bool := c.toNat < 0x20 || (0x7f ≤ c.toNat && c.toNat ≤ 0x9f)

/-- `char::is_ascii_lowercase` -/
def isLower (c : Char) : Bool := 'a' ≤ c && c ≤ 'z'

/-- `char::is_ascii_hexdigit` -/
def isHexDigit (c : Char) : Bool := c.isDigit || ('a' ≤ c && c ≤ 'f') || ('A' ≤ c && c ≤ 'F')

/-- `char::to_digit(16)` -/
def hexDigit (c : Char) : Option Nat :=
  let n := c.toNat
  if 0x30 ≤ n ∧ n ≤ 0x39 then some (n - 0x30)
  else if 0x41 ≤ n ∧ n ≤ 0x46 then some (n - 0x37)
  else if 0x61 ≤ n ∧ n ≤ 0x66 then some (n - 0x57)
  else none

/-- `escape_debug` of a character other than a quote, for the characters of ASCII. -/
def escapeControl (c : Char) : Text :=
  if c = '\\' then "\\\\"
  else if c = '\n' then "\\n"
  else if c = '\r' then "\\r"
  else if c = '\t' then "\\t"
  else if c.toNat = 0 then "\\0"
  else if isControl c then "\\u\x7b" ++ Nat.toDigits 16 c.toNat ++ "\x7d"
  else [c]

/-- `str::escape_debug`, for the characters of ASCII. -/
def escapeDebug (s : Text) : Text :=
  s.flatMap fun c => if c = '\'' ∨ c = '"' then ['\\', c] else escapeControl c

/-- `{:?}` of a string: quoted, and only the double quote escaped. -/
def debug (s : Text) : Text :=
  "\"" ++ (s.flatMap fun c => if c = '"' then ['\\', c] else escapeControl c) ++ "\""

end Text
