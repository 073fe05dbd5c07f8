import MibAgent.Octets

/-!
# Octets as text

`toText?` reads octets as UTF-8 and fails when they are not. `toTextLossy` always succeeds:
it keeps every well-formed character and puts one replacement character for each maximal
run of octets that begins a character but does not complete it, and for each octet that
begins none.
-/

namespace MibAgent.Octets

/-- The character that stands for octets that are not text. -/
def replacement : Char := Char.ofNat 0xFFFD

/-- The text whose UTF-8 encoding the octets are. -/
def toText? (s : Octets) : Option String :=
  String.fromUTF8? ⟨s.toArray⟩

/-- Whether an octet continues a character begun earlier. -/
def isTail (b : UInt8) : Bool := 0x80 ≤ b && b ≤ 0xBF

/-- What the first octet of a character announces: the bits it contributes, how many octets
follow, and the range of the first of them. -/
def lead (b : UInt8) : Option (Nat × Nat × UInt8 × UInt8) :=
  let n := b.toNat
  if n < 0x80 then some (n, 0, 0x80, 0xBF)
  else if n < 0xC2 then none
  else if n < 0xE0 then some (n - 0xC0, 1, 0x80, 0xBF)
  else if n = 0xE0 then some (0, 2, 0xA0, 0xBF)
  else if n = 0xED then some (0xD, 2, 0x80, 0x9F)
  else if n < 0xF0 then some (n - 0xE0, 2, 0x80, 0xBF)
  else if n = 0xF0 then some (0, 3, 0x90, 0xBF)
  else if n < 0xF4 then some (n - 0xF0, 3, 0x80, 0xBF)
  else if n = 0xF4 then some (4, 3, 0x80, 0x8F)
  else none

/-- The tails of a character, `count` of them, the first between `low` and `high`: the code
point when all are there, and otherwise none, with the number of octets that fit. -/
def tails : (count : Nat) → (low high : UInt8) → (code used : Nat) → Octets → Option Nat × Nat
  | 0, _, _, code, used, _ => (some code, used)
  | _ + 1, _, _, _, used, [] => (none, used)
  | count + 1, low, high, code, used, b :: rest =>
    if low ≤ b && b ≤ high then
      tails count 0x80 0xBF (code * 64 + (b.toNat - 0x80)) (used + 1) rest
    else (none, used)

/-- The first character of octets that begin with `b`, or the replacement character, and how
many of the octets after `b` belong to it. -/
def firstChar (b : UInt8) (rest : Octets) : Char × Nat :=
  match lead b with
  | none => (replacement, 0)
  | some (code, count, low, high) =>
    match tails count low high code 0 rest with
    | (some code, used) => (Char.ofNat code, used)
    | (none, used) => (replacement, used)

/-- The characters of the octets, with replacement characters where they are not text. -/
def charsLossy : Octets → List Char
  | [] => []
  | b :: rest =>
    let (c, used) := firstChar b rest
    c :: charsLossy (rest.drop used)
termination_by s => s.length
decreasing_by simp only [List.length_drop, List.length_cons]; omega

/-- The octets as text, with replacement characters where they are not text. -/
def toTextLossy (s : Octets) : String := String.ofList (charsLossy s)

end MibAgent.Octets
