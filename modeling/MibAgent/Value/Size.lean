import MibAgent.Value

/-!
# Encoded sizes

The number of octets that values, bindings and whole responses take when they are encoded
with definite lengths in as few octets as possible. Sizes are computed from the widths of
numbers in bits, or from their octets in memory, without building the encoding.
-/

namespace MibAgent

namespace Size

/-- The sum of some sizes. -/
def total : List Nat → Nat
  | [] => 0
  | n :: rest => n + total rest

/-- The number of bits needed to write `n`, none for zero. -/
def bitWidth (n : Nat) : Nat := if n = 0 then 0 else n.log2 + 1

/-- The octets of the length field of a content of `n` octets. -/
def lengthField (n : Nat) : Nat :=
  if n < 0x80 then 1 else 1 + (bitWidth n + 7) / 8

/-- The octets of a tagged field with a content of `n` octets. -/
def field (n : Nat) : Nat := 1 + lengthField n + n

/-- The content octets of an unsigned number, whose leading bit is a zero. -/
def unsigned (n : Nat) : Nat := bitWidth n / 8 + 1

/-- The last `k` octets of a number in two's complement, the most significant one first. -/
def bigEndian : Nat → Int → Octets
  | 0, _ => []
  | k + 1, n => UInt8.ofInt (n >>> (8 * k)) :: bigEndian k n

/-- Whether the first octet of a number only repeats the sign that the second one has. -/
def repeatsSign (negative : Bool) (first second : UInt8) : Bool :=
  if negative then first == 0xFF && second &&& 0x80 != 0 else first == 0 && second &&& 0x80 == 0

/-- The octets of a number without those in front that only repeat its sign. -/
def withoutSign (negative : Bool) : Octets → Octets
  | first :: second :: rest =>
    if repeatsSign negative first second then withoutSign negative (second :: rest)
    else first :: second :: rest
  | s => s

/-- The octets that a number takes in memory: four, unless it is beyond the numbers of 32 bits. -/
def width (n : Int) : Nat :=
  if -0x80000000 ≤ n ∧ n < 0x80000000 then 4 else n.natAbs.log2 / 8 + 2

/-- The content octets of a signed number in two's complement. -/
def signed (n : Int) : Nat := (withoutSign (n < 0) (bigEndian (width n) n)).length

/-- The octets of a number written in base 128. -/
def base128 (n : Nat) : Nat := if n = 0 then 1 else (bitWidth n + 6) / 7

/-- The content octets of an OID. The first two arcs share one number; an absent second arc
counts as zero, and the root takes a single octet. -/
def oid (a : Oid) : Nat :=
  match a.arcs with
  | [] => 1
  | [first] => base128 (first.toNat * 40)
  | first :: second :: rest =>
    base128 (first.toNat * 40 + second.toNat) + total (rest.map fun arc => base128 arc.toNat)

end Size

/-- The content octets of a value. -/
def Value.contentSize : Value → Nat
  | integer n => Size.signed n.toInt
  | octetString s | opaqueData s => s.length
  | null | noSuchObject | noSuchInstance | endOfMibView => 0
  | objectIdentifier oid => Size.oid oid
  | ipAddress .. => 4
  | counter32 n | gauge32 n | timeTicks n => Size.unsigned n.toNat
  | counter64 n => Size.unsigned n.toNat

/-- The octets of an encoded value. -/
def Value.encodedSize (v : Value) : Nat := Size.field v.contentSize

/-- The octets of an encoded binding. -/
def Binding.encodedSize (b : Binding) : Nat :=
  Size.field (Size.field (Size.oid b.oid) + b.value.encodedSize)

namespace Size

/-- The octets of an encoded list of bindings. -/
def bindings (bs : List Binding) : Nat := field (total (bs.map Binding.encodedSize))

/-- The octets of an encoded response: its request id, status code, error position and
bindings. -/
def response (requestId status index : Int) (bs : List Binding) : Nat :=
  field (field (signed requestId) + field (signed status) + field (signed index) + bindings bs)

end Size

end MibAgent
