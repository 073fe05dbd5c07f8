/-!
# Octet strings

Names of contexts, names of principals and string values are sequences of octets, which
need not be text. They are ordered lexicographically, a shorter one before every longer one
it begins. Three printed forms are given: hexadecimal digits, which can be read back, a list of
hexadecimal pairs, and a quoted literal in which everything outside the printable ASCII
characters is escaped.
-/

namespace MibAgent

/-- A sequence of octets. -/
abbrev Octets := List UInt8

namespace Octets

/-- The hexadecimal digit of a number below sixteen, in lower case. -/
def hexDigit (n : Nat) : Char :=
  if n < 10 then Char.ofNat (n + 48) else Char.ofNat (n + 87)

/-- An octet as two hexadecimal digits. -/
def hexPair (b : UInt8) : String :=
  String.ofList [hexDigit (b.toNat / 16), hexDigit (b.toNat % 16)]

/-- The octets as hexadecimal digits, two for each. -/
def toHexDigits : Octets → List Char
  | [] => []
  | b :: rest => hexDigit (b.toNat / 16) :: hexDigit (b.toNat % 16) :: toHexDigits rest

/-- The number that a hexadecimal digit in lower case stands for. -/
def hexValue? (c : Char) : Option Nat :=
  if '0' ≤ c ∧ c ≤ '9' then some (c.toNat - 48)
  else if 'a' ≤ c ∧ c ≤ 'f' then some (c.toNat - 87)
  else none

/-- The octets written as hexadecimal digits, two for each. -/
def ofHexDigits? : List Char → Option Octets
  | [] => some []
  | [_] => none
  | high :: low :: rest => do
    let high ← hexValue? high
    let low ← hexValue? low
    let rest ← ofHexDigits? rest
    return UInt8.ofNat (high * 16 + low) :: rest

/-- The octets as hexadecimal pairs, separated by commas and in brackets. -/
def toHexList (s : Octets) : String :=
  "[" ++ ", ".intercalate (s.map hexPair) ++ "]"

/-- An octet inside a quoted literal. The quote and the backslash, the tabulator, the two line
ends and the zero octet have short escapes; any other octet that is not a printable ASCII
character is given by its hexadecimal pair. -/
def escape (b : UInt8) : String :=
  match b.toNat with
  | 0 => "\\0"
  | 9 => "\\t"
  | 10 => "\\n"
  | 13 => "\\r"
  | 34 => "\\\""
  | 92 => "\\\\"
  | n => if 32 ≤ n ∧ n < 127 then String.singleton (Char.ofNat n) else "\\x" ++ hexPair b

/-- The octets as a quoted literal. -/
def toLiteral (s : Octets) : String :=
  "b\"" ++ String.join (s.map escape) ++ "\""

end Octets

end MibAgent
