import MibAgent.Oid

/-!
# Reading object identifiers

The dotted notation of an OID is a sequence of decimal numbers below 2³², separated by dots;
one dot may come first. A number may carry a plus sign and leading zeros. An OID has at most
128 arcs, both when it is read and when it is built from numbers.
-/

namespace MibAgent

/-- Why an OID is refused. -/
inductive OidFault where
  /-- There are no arcs. -/
  | empty
  /-- An arc is not a decimal number below 2³². -/
  | invalidArc
  /-- There are `count` arcs, and only `limit` are allowed. -/
  | tooManyArcs (count limit : Nat)
deriving DecidableEq

namespace Oid

/-- The greatest number of arcs of an OID that is read or built from numbers. -/
def maxLength : Nat := 128

/-- The OID with the given arcs, unless there are too many. -/
def ofArcs (arcs : List UInt32) : Except OidFault Oid :=
  if maxLength < arcs.length then .error (.tooManyArcs arcs.length maxLength) else .ok ⟨arcs⟩

/-- The value of a decimal digit. -/
def digit? (c : Char) : Option Nat :=
  if '0' ≤ c ∧ c ≤ '9' then some (c.toNat - '0'.toNat) else none

/-- The number written by decimal digits that continue a number `acc`. -/
def digits? : (acc : Nat) → List Char → Option Nat
  | acc, [] => some acc
  | acc, c :: rest =>
    match digit? c with
    | some d => digits? (10 * acc + d) rest
    | none => none

/-- The number written by at least one decimal digit. -/
def number? : List Char → Option Nat
  | [] => none
  | digits => digits? 0 digits

/-- The arc written as a decimal number, which may carry a plus sign. -/
def arc? (text : List Char) : Option UInt32 :=
  let digits := if text.head? = some '+' then text.tail else text
  match number? digits with
  | some n => if n < UInt32.size then some (UInt32.ofNat n) else none
  | none => none

/-- The arcs written in the parts of a dotted text, `count` arcs having been read before.
The first fault from the left decides. -/
def arcsOf : (count : Nat) → List (List Char) → Except OidFault (List UInt32)
  | _, [] => .ok []
  | count, part :: rest =>
    match arc? part with
    | none => .error .invalidArc
    | some arc =>
      if maxLength < count + 1 then .error (.tooManyArcs (count + 1) maxLength)
      else (arcsOf (count + 1) rest).map (arc :: ·)

/-- The OID written in dotted notation. -/
def parse (text : String) : Except OidFault Oid :=
  let chars := text.toList
  let dotted := if chars.head? = some '.' then chars.tail else chars
  if dotted.isEmpty then .error .empty
  else (arcsOf 0 (dotted.splitOn '.')).map Oid.mk

end Oid

end MibAgent
