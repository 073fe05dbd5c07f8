import MibAgent.Value.Size
import Mathlib.Data.Nat.Digits.Lemmas

/-!
# Encoded responses

A response on the wire is built from tagged fields: a tag, the length of the content, and the
content, which is again made of fields or is a numeral. Numerals are as short as their kind permits:
a plain one has no leading zeros, one in two's complement no leading octet that only repeats the
sign, and one in base 128 no leading septet that is zero. The sizes that are computed without
building an encoding are the lengths of what is built here.
-/

namespace MibAgent

/-! ### Numerals -/

namespace Octets

/-- The number whose digits the octets are, the most significant one first. Of an octet as much
counts as makes a digit in the base. -/
def numeral (base : Nat) (s : Octets) : Nat := Nat.ofDigits base (s.reverse.map (·.toNat % base))

/-- Whether the leading bit is a one. -/
def isNegative (s : Octets) : Bool := s.head?.any (0x80 ≤ ·)

/-- The number that the octets stand for in two's complement. -/
def signedNumeral (s : Octets) : Int :=
  if s.isNegative then s.numeral 256 - 256 ^ s.length else s.numeral 256

/-- The leading bit is a one in every octet but the last one. -/
def IsContinued (s : Octets) : Prop :=
  ∃ earlier last, s = earlier ++ [last] ∧ (∀ b ∈ earlier, 0x80 ≤ b) ∧ last < 0x80

/-- Nothing shorter has the property. -/
def IsShortest (P : Octets → Prop) (s : Octets) : Prop := P s ∧ ∀ t, P t → s.length ≤ t.length

variable {base : Nat}

theorem numeral_lt (h : 1 < base) (s : Octets) :
  s.numeral base < base ^ s.length
  := by
  have hlt := Nat.ofDigits_lt_base_pow_length (l := s.reverse.map (·.toNat % base)) h
    (by simp [Nat.mod_lt, Nat.zero_lt_of_lt h])
  rwa [List.length_map, List.length_reverse] at hlt

theorem numeral_cons (b : UInt8) (s : Octets) :
  numeral base (b :: s) = s.numeral base + base ^ s.length * (b.toNat % base)
  := by
  rw [numeral, List.reverse_cons, List.map_append, Nat.ofDigits_append, List.length_map,
    List.length_reverse]
  rw [List.map_singleton, Nat.ofDigits_singleton, numeral]

theorem numeral_concat (s : Octets) (b : UInt8) :
  numeral base (s ++ [b]) = b.toNat % base + base * s.numeral base
  := by
  rw [numeral, List.reverse_append]
  rfl

/-- Octets that are the digits of a number are read as that number. -/
theorem numeral_digits {digit : Nat → UInt8} (h : 1 < base)
    (hdigit : ∀ d < base, (digit d).toNat % base = d) (n : Nat) :
  numeral base ((Nat.digits base n).reverse.map digit) = n
  := by
  have hread : ∀ d ∈ Nat.digits base n, ((·.toNat % base) ∘ digit) d = id d :=
    fun d hd => hdigit d (Nat.digits_lt_base h hd)
  rw [numeral, ← List.map_reverse, List.reverse_reverse, List.map_map,
    List.map_congr_left hread, List.map_id, Nat.ofDigits_digits]

theorem isNegative_cons (b : UInt8) (s : Octets) :
  isNegative (b :: s) ↔ 128 ≤ b.toNat
  := by
  rw [isNegative, List.head?_cons, Option.any_some, decide_eq_true_iff, UInt8.le_iff_toNat_le]
  rfl

/-- Half of the numbers of a length have a one as their leading bit. -/
theorem isNegative_iff (b : UInt8) (s : Octets) :
  isNegative (b :: s) ↔ 128 * 256 ^ s.length ≤ numeral 256 (b :: s)
  := by
  have hrest := numeral_lt (by decide : 1 < 256) s
  have hb : b.toNat % 256 = b.toNat := Nat.mod_eq_of_lt b.toNat_lt
  rw [isNegative_cons, numeral_cons, hb]
  constructor
  · intro hle
    have hmul := Nat.mul_le_mul_left (256 ^ s.length) hle
    omega
  · intro hle
    by_contra hlt
    have hmul := Nat.mul_le_mul_left (256 ^ s.length) (Nat.succ_le_of_lt (not_le.mp hlt))
    rw [Nat.mul_succ] at hmul
    omega

/-- What octets of a length can stand for in two's complement. -/
theorem signedNumeral_mem (b : UInt8) (s : Octets) :
  -(128 * 256 ^ s.length) ≤ signedNumeral (b :: s)
    ∧ signedNumeral (b :: s) < 128 * 256 ^ s.length
  := by
  have hlt := numeral_lt (by decide : 1 < 256) (b :: s)
  rw [List.length_cons, Nat.pow_succ] at hlt
  rw [signedNumeral]
  split
  · rename_i hnegative
    have hle := (isNegative_iff b s).mp hnegative
    rw [List.length_cons, pow_succ]
    zify at hle hlt
    omega
  · rename_i hpositive
    have hhalf := not_le.mp (mt (isNegative_iff b s).mpr hpositive)
    zify at hhalf
    omega

theorem signedNumeral_concat {s : Octets} (h : s ≠ []) (b : UInt8) :
  signedNumeral (s ++ [b]) = b.toNat + 256 * s.signedNumeral
  := by
  cases s with
  | nil => apply absurd rfl h
  | cons c rest =>
      have hsign : isNegative (c :: rest ++ [b]) = isNegative (c :: rest) := rfl
      have hb : b.toNat % 256 = b.toNat := Nat.mod_eq_of_lt b.toNat_lt
      rw [signedNumeral, signedNumeral, hsign, numeral_concat, hb, List.length_append,
        List.length_singleton, pow_succ]
      split
      · push_cast
        ring
      · push_cast
        ring

end Octets

/-! ### What is built -/

namespace Encoding

open Octets

/-- The digits of a number in base 256, the most significant one first. Zero has none. -/
def magnitude (n : Nat) : Octets := (Nat.digits 256 n).reverse.map UInt8.ofNat

/-- An unsigned number: its digits, with a zero octet in front when their leading bit is a one or
when there are none. -/
def unsigned (n : Nat) : Octets :=
  if magnitude n = [] ∨ (magnitude n).isNegative then 0 :: magnitude n else magnitude n

/-- The last octet of a number in two's complement. -/
def lastOctet (n : Int) : UInt8 := UInt8.ofNat (n % 256).toNat

/-- A signed number in two's complement, without leading octets that only repeat its sign. -/
def signed (n : Int) : Octets :=
  if -128 ≤ n ∧ n < 128 then [lastOctet n] else signed (n / 256) ++ [lastOctet n]
termination_by n.natAbs

/-- A number in base 128: the leading bit of an octet says whether more octets follow. -/
def base128 (n : Nat) : Octets :=
  (Nat.digits 128 (n / 128)).reverse.map (fun d => UInt8.ofNat (0x80 + d))
    ++ [UInt8.ofNat (n % 128)]

/-- The length of a content: a single octet for fewer than 128 octets, otherwise an octet that tells
how many octets follow with the length. -/
def lengthField (n : Nat) : Octets :=
  if n < 0x80 then [UInt8.ofNat n] else UInt8.ofNat (0x80 + (magnitude n).length) :: magnitude n

/-- A tagged field. -/
def field (tag : UInt8) (content : Octets) : Octets :=
  tag :: lengthField content.length ++ content

/-- An OID. The first two arcs are joined to one number; an absent second arc counts as zero, and
the root is written as `0.0`. -/
def oid (a : Oid) : Octets :=
  match a.arcs with
  | [] => base128 (40 * 0 + 0)
  | [first] => base128 (40 * first.toNat + 0)
  | first :: second :: rest =>
    base128 (40 * first.toNat + second.toNat) ++ rest.flatMap fun arc => base128 arc.toNat

/-- The content of a value. -/
def content : Value → Octets
  | .integer n => signed n.toInt
  | .octetString s | .opaqueData s => s
  | .null | .noSuchObject | .noSuchInstance | .endOfMibView => []
  | .objectIdentifier a => oid a
  | .ipAddress a b c d => [a, b, c, d]
  | .counter32 n | .gauge32 n | .timeTicks n => unsigned n.toNat
  | .counter64 n => unsigned n.toNat

/-- A value. -/
def value (v : Value) : Octets := field v.tag (content v)

/-- A binding: the sequence of its OID and its value. -/
def binding (b : Binding) : Octets := field 0x30 (field 0x06 (oid b.oid) ++ value b.value)

/-- The sequence of some bindings. -/
def bindings (bs : List Binding) : Octets := field 0x30 (bs.flatMap binding)

/-- A response: its request id, status code and error position, and its bindings. -/
def response (requestId status index : Int) (bs : List Binding) : Octets :=
  field 0xA2
    (field 0x02 (signed requestId) ++ field 0x02 (signed status) ++ field 0x02 (signed index)
      ++ bindings bs)

/-! ### Numerals are read back, and are as short as can be -/

theorem numeral_magnitude (n : Nat) :
  (magnitude n).numeral 256 = n
  := by
  apply numeral_digits (by decide)
  intro d hd
  rw [UInt8.toNat_ofNat', Nat.mod_eq_of_lt hd, Nat.mod_eq_of_lt hd]

theorem length_magnitude_le_iff {n k : Nat} :
  (magnitude n).length ≤ k ↔ n < 256 ^ k
  := by
  rw [magnitude, List.length_map, List.length_reverse, Nat.digits_length_le_iff (by decide)]

theorem isShortest_magnitude (n : Nat) :
  IsShortest (·.numeral 256 = n) (magnitude n)
  := by
  use numeral_magnitude n
  rintro t rfl
  apply length_magnitude_le_iff.mpr (numeral_lt (by decide) t)

theorem signedNumeral_unsigned (n : Nat) :
  unsigned n ≠ [] ∧ (unsigned n).signedNumeral = n
  := by
  rw [unsigned]
  split
  · have hsign : isNegative (0 :: magnitude n) = false := rfl
    use List.cons_ne_nil _ _
    rw [signedNumeral, hsign, numeral_cons, numeral_magnitude]
    simp
  · rename_i hplain
    rw [not_or] at hplain
    use hplain.1
    rw [signedNumeral, if_neg hplain.2, numeral_magnitude]

theorem length_unsigned_le_iff {n k : Nat} :
  (unsigned n).length ≤ k + 1 ↔ n < 128 * 256 ^ k
  := by
  have hnumeral := numeral_magnitude n
  have hlength : ∀ j, (magnitude n).length ≤ j ↔ n < 256 ^ j := fun _ => length_magnitude_le_iff
  rw [unsigned]
  cases hdigits : magnitude n with
  | nil =>
      rw [hdigits] at hnumeral
      have hpow : 0 < 256 ^ k := by positivity
      rw [if_pos (.inl rfl), ← hnumeral]
      simp [numeral]
  | cons b rest =>
      rw [hdigits] at hnumeral hlength
      have hsign := isNegative_iff b rest
      rw [hnumeral] at hsign
      have hmono : rest.length ≤ k → 256 ^ rest.length ≤ 256 ^ k :=
        Nat.pow_le_pow_right (by decide)
      by_cases hnegative : isNegative (b :: rest)
      · -- the numbers from `128 * 256 ^ rest.length` to `256 ^ (rest.length + 1)`
        rw [if_pos (.inr hnegative), List.length_cons, Nat.add_le_add_iff_right, hlength]
        have hle := hsign.mp hnegative
        constructor
        · intro hlt
          omega
        · intro hlt
          have hpow : 256 ^ rest.length < 256 ^ k := by omega
          rw [← hlength]
          apply (Nat.pow_lt_pow_iff_right (by decide)).mp hpow
      · -- the numbers from `256 ^ rest.length` to `128 * 256 ^ rest.length`
        rw [if_neg (by simpa using hnegative), List.length_cons, Nat.add_le_add_iff_right]
        have hlt' := not_le.mp (mt hsign.mpr hnegative)
        constructor
        · intro hk
          have hpow := hmono hk
          omega
        · intro hlt
          have hnext : n < 256 ^ (k + 1) := by
            rw [Nat.pow_succ]
            omega
          rw [← hlength] at hnext
          apply Nat.le_of_succ_le_succ hnext

theorem isShortest_unsigned (n : Nat) :
  IsShortest (fun s => s ≠ [] ∧ s.signedNumeral = n) (unsigned n)
  := by
  use signedNumeral_unsigned n
  rintro t ⟨hne, ht⟩
  cases t with
  | nil => apply absurd rfl hne
  | cons b rest =>
      obtain ⟨-, hlt⟩ := signedNumeral_mem b rest
      rw [ht] at hlt
      apply length_unsigned_le_iff.mpr
      exact_mod_cast hlt

theorem toNat_lastOctet (n : Int) :
  ((lastOctet n).toNat : Int) = n % 256
  := by
  rw [lastOctet, UInt8.toNat_ofNat']
  omega

theorem signedNumeral_signed (n : Int) :
  signed n ≠ [] ∧ (signed n).signedNumeral = n
  := by
  have hlast := toNat_lastOctet n
  fun_induction signed n with
  | case1 n hsmall =>
      use List.cons_ne_nil _ _
      have hsign := isNegative_cons (lastOctet n) []
      have hnumeral : numeral 256 [lastOctet n] = (lastOctet n).toNat := by
        rw [numeral_cons, Nat.mod_eq_of_lt (lastOctet n).toNat_lt]
        simp [numeral]
      rw [signedNumeral, hnumeral, List.length_singleton]
      split
      · rename_i hnegative
        have hhigh := hsign.mp hnegative
        omega
      · rename_i hpositive
        have hlow := mt hsign.mpr hpositive
        omega
  | case2 n hlarge ih =>
      obtain ⟨hne, hnumeral⟩ := ih (toNat_lastOctet _)
      use List.append_ne_nil_of_left_ne_nil hne _
      rw [signedNumeral_concat hne, hnumeral, hlast]
      omega

theorem length_signed_le_iff {n : Int} {k : Nat} :
  (signed n).length ≤ k + 1 ↔ -(128 * 256 ^ k) ≤ n ∧ n < 128 * 256 ^ k
  := by
  fun_induction signed n generalizing k with
  | case1 n hsmall =>
      have hpow : (1 : Int) ≤ 256 ^ k := one_le_pow₀ (by decide)
      rw [List.length_singleton]
      omega
  | case2 n hlarge ih =>
      rw [List.length_append, List.length_singleton, Nat.add_le_add_iff_right]
      cases k with
      | zero =>
          obtain ⟨hne, -⟩ := signedNumeral_signed (n / 256)
          have hpos := List.length_pos_of_ne_nil hne
          omega
      | succ k =>
          rw [ih, pow_succ]
          omega

theorem isShortest_signed (n : Int) :
  IsShortest (fun s => s ≠ [] ∧ s.signedNumeral = n) (signed n)
  := by
  use signedNumeral_signed n
  rintro t ⟨hne, rfl⟩
  cases t with
  | nil => apply absurd rfl hne
  | cons b rest => apply length_signed_le_iff.mpr (signedNumeral_mem b rest)

theorem numeral_base128 (n : Nat) :
  (base128 n).IsContinued ∧ (base128 n).numeral 128 = n
  := by
  have hlast : (UInt8.ofNat (n % 128)).toNat = n % 128 := by
    rw [UInt8.toNat_ofNat']
    omega
  constructor
  · refine ⟨_, _, rfl, ?_, ?_⟩
    · intro b hb
      obtain ⟨d, hd, rfl⟩ := List.mem_map.mp hb
      have hlt := Nat.digits_lt_base (by decide) (List.mem_reverse.mp hd)
      rw [UInt8.le_iff_toNat_le, UInt8.toNat_ofNat']
      change 128 ≤ _
      omega
    · rw [UInt8.lt_iff_toNat_lt, hlast]
      apply Nat.mod_lt n (by decide)
  · rw [base128, numeral_concat, numeral_digits (by decide), hlast]
    · omega
    · intro d hd
      rw [UInt8.toNat_ofNat']
      omega

theorem length_base128_le_iff {n k : Nat} :
  (base128 n).length ≤ k + 1 ↔ n < 128 ^ (k + 1)
  := by
  rw [base128, List.length_append, List.length_map, List.length_reverse, List.length_singleton,
    Nat.add_le_add_iff_right, Nat.digits_length_le_iff (by decide), Nat.pow_succ,
    Nat.div_lt_iff_lt_mul (by decide)]

theorem isShortest_base128 (n : Nat) :
  IsShortest (fun s => s.IsContinued ∧ s.numeral 128 = n) (base128 n)
  := by
  use numeral_base128 n
  rintro t ⟨⟨earlier, last, rfl, -, -⟩, rfl⟩
  rw [List.length_append, List.length_singleton, length_base128_le_iff]
  have hlt := numeral_lt (by decide : 1 < 128) (earlier ++ [last])
  rwa [List.length_append, List.length_singleton] at hlt

end Encoding

/-! ### Sizes -/

namespace Size

theorem bitWidth_le_iff {n k : Nat} :
  bitWidth n ≤ k ↔ n < 2 ^ k
  := by
  rw [bitWidth]
  split
  · rename_i hn
    have hpow : 0 < 2 ^ k := by positivity
    omega
  · rename_i hn
    rw [← Nat.log2_lt hn]
    rfl

theorem lengthField_eq (n : Nat) :
  lengthField n = (Encoding.lengthField n).length
  := by
  rw [lengthField, Encoding.lengthField]
  split
  · rfl
  · rw [List.length_cons, Nat.add_comm]
    congr 1
    apply eq_of_forall_ge_iff
    intro k
    have hbits : (bitWidth n + 7) / 8 ≤ k ↔ bitWidth n ≤ 8 * k := by omega
    rw [hbits, bitWidth_le_iff, Encoding.length_magnitude_le_iff, Nat.pow_mul]

theorem unsigned_le_iff {n k : Nat} :
  unsigned n ≤ k + 1 ↔ n < 128 * 256 ^ k
  := by
  have hbits : unsigned n ≤ k + 1 ↔ bitWidth n ≤ 7 + 8 * k := by
    rw [unsigned]
    omega
  rw [hbits, bitWidth_le_iff, Nat.pow_add, Nat.pow_mul]

/-- Sizes of numerals, which are never empty, are the same when they stay below the same bounds. -/
theorem eq_of_le_iff {m n : Nat} (hm : 0 < m) (hn : 0 < n)
    (h : ∀ k, m ≤ k + 1 ↔ n ≤ k + 1) :
  m = n
  := by
  apply le_antisymm
  · have := (h (n - 1)).mpr (by omega)
    omega
  · have := (h (m - 1)).mp (by omega)
    omega

theorem unsigned_pos (n : Nat) :
  0 < unsigned n
  := Nat.succ_pos _

theorem unsigned_eq (n : Nat) :
  unsigned n = (Encoding.unsigned n).length
  := by
  obtain ⟨hne, -⟩ := Encoding.signedNumeral_unsigned n
  apply eq_of_le_iff (unsigned_pos n) (List.length_pos_of_ne_nil hne)
  intro k
  rw [unsigned_le_iff, Encoding.length_unsigned_le_iff]

theorem toNat_ofInt (n : Int) :
  ((UInt8.ofInt n).toNat : Int) = n % 256
  := Encoding.toNat_lastOctet n

theorem and_mask_eq_zero_iff (b : UInt8) :
  b &&& 0x80 = 0 ↔ b.toNat < 128
  := by
  have htable : ∀ i : Fin 256, UInt8.ofNat i &&& 0x80 = 0 ↔ i.val < 128 := by decide +kernel
  simpa using htable ⟨b.toNat, b.toNat_lt⟩

/-- The first of two octets only repeats the sign exactly if the number fits into the second. -/
theorem repeatsSign_iff {n : Int} (hlower : -(128 * 256) ≤ n) (hupper : n < 128 * 256) :
  repeatsSign (n < 0) (UInt8.ofInt (n / 256)) (UInt8.ofInt n) ↔ -128 ≤ n ∧ n < 128
  := by
  have hfirst := toNat_ofInt (n / 256)
  have hsecond := toNat_ofInt n
  have hmask := and_mask_eq_zero_iff (UInt8.ofInt n)
  have hones : (0xFF : UInt8).toNat = 255 := rfl
  have hzeros : (0 : UInt8).toNat = 0 := rfl
  rw [repeatsSign]
  split
  · rename_i hnegative
    rw [decide_eq_true_iff] at hnegative
    rw [Bool.and_eq_true, beq_iff_eq, bne_iff_ne, Ne, hmask, ← UInt8.toNat_inj, hones]
    omega
  · rename_i hpositive
    rw [decide_eq_true_iff] at hpositive
    rw [Bool.and_eq_true, beq_iff_eq, beq_iff_eq, hmask, ← UInt8.toNat_inj, hzeros]
    omega

theorem shiftRight_eq_ediv (n : Int) (k : Nat) :
  n >>> (8 * k) = n / 256 ^ k
  := by
  rw [Int.shiftRight_eq_div_pow, Nat.pow_mul]
  norm_cast

theorem length_bigEndian (k : Nat) (n : Int) :
  (bigEndian k n).length = k
  := by
  induction k with
  | zero => rfl
  | succ k ih => rw [bigEndian, List.length_cons, ih]

/-- In as many octets as a number needs, or one more, the first one only repeats the sign exactly if
it is that one more. -/
theorem repeatsSign_bigEndian_iff {n : Int} {k : Nat} (h : (Encoding.signed n).length ≤ k + 2) :
  repeatsSign (n < 0) (UInt8.ofInt (n >>> (8 * (k + 1)))) (UInt8.ofInt (n >>> (8 * k)))
    ↔ (Encoding.signed n).length ≤ k + 1
  := by
  have hpow : (0 : Int) < 256 ^ k := by positivity
  -- only the number that the first two octets hold is of interest
  have hbounds : ∀ m : Int, (-m ≤ n / 256 ^ k ∧ n / 256 ^ k < m)
      ↔ (-(m * 256 ^ k) ≤ n ∧ n < m * 256 ^ k) := by
    intro m
    rw [Int.le_ediv_iff_mul_le hpow, Int.ediv_lt_iff_lt_mul hpow, neg_mul]
  have hsign : n < 0 ↔ n / 256 ^ k < 0 := by rw [Int.ediv_lt_iff_lt_mul hpow, zero_mul]
  have hshift : n >>> (8 * (k + 1)) = n / 256 ^ k / 256 := by
    rw [shiftRight_eq_ediv, pow_succ, Int.ediv_ediv_of_nonneg hpow.le]
  rw [Encoding.length_signed_le_iff, pow_succ, mul_comm (256 ^ k), ← mul_assoc, ← hbounds] at h
  rw [hshift, shiftRight_eq_ediv, decide_eq_decide.mpr hsign, repeatsSign_iff h.1 h.2, hbounds,
    Encoding.length_signed_le_iff]

/-- Without the octets that only repeat its sign, a number takes as many as its shortest numeral. -/
theorem length_withoutSign {n : Int} {k : Nat} (h : (Encoding.signed n).length ≤ k + 1) :
  (withoutSign (n < 0) (bigEndian (k + 1) n)).length = (Encoding.signed n).length
  := by
  obtain ⟨hne, -⟩ := Encoding.signedNumeral_signed n
  have hpositive := List.length_pos_of_ne_nil hne
  induction k with
  | zero =>
      rw [bigEndian, bigEndian, withoutSign, List.length_singleton]
      · omega
      · nofun
  | succ k ih =>
      have hrepeats := repeatsSign_bigEndian_iff h
      rw [bigEndian, bigEndian, withoutSign]
      split
      · -- the octet in front is one more than is needed
        rename_i hfirst
        apply ih (hrepeats.mp hfirst)
      · rename_i hfirst
        have hneeded := mt hrepeats.mpr hfirst
        rw [List.length_cons, List.length_cons, length_bigEndian]
        omega

/-- A number fits into the octets that it takes in memory. -/
theorem length_signed_le_width (n : Int) :
  ∃ k, width n = k + 1 ∧ (Encoding.signed n).length ≤ k + 1
  := by
  rw [width]
  split
  · rename_i hword
    refine ⟨3, rfl, Encoding.length_signed_le_iff.mpr ?_⟩
    omega
  · refine ⟨n.natAbs.log2 / 8 + 1, rfl, Encoding.length_signed_le_iff.mpr ?_⟩
    have hbits : n.natAbs < 256 ^ (n.natAbs.log2 / 8 + 1) := by
      calc
        n.natAbs < 2 ^ (n.natAbs.log2 + 1) := Nat.lt_log2_self
        _ ≤ 2 ^ (8 * (n.natAbs.log2 / 8 + 1)) := Nat.pow_le_pow_right (by decide) (by omega)
        _ = 256 ^ (n.natAbs.log2 / 8 + 1) := Nat.pow_mul 2 8 _
    have hbits' : (n.natAbs : Int) < 256 ^ (n.natAbs.log2 / 8 + 1) := by exact_mod_cast hbits
    omega

theorem signed_eq (n : Int) :
  signed n = (Encoding.signed n).length
  := by
  obtain ⟨k, hwidth, hfits⟩ := length_signed_le_width n
  rw [signed, hwidth, length_withoutSign hfits]

/-- A signed number takes as many octets as an unsigned one does, which for a negative number is its
complement. -/
theorem signed_eq_unsigned (n : Int) :
  signed n = unsigned (if 0 ≤ n then n else -n - 1).toNat
  := by
  obtain ⟨hne, -⟩ := Encoding.signedNumeral_signed n
  rw [signed_eq]
  apply eq_of_le_iff (List.length_pos_of_ne_nil hne) (unsigned_pos _)
  intro k
  have hpow : (0 : Int) ≤ 256 ^ k := by positivity
  rw [unsigned_le_iff, Encoding.length_signed_le_iff]
  zify
  split
  · omega
  · omega

theorem base128_eq (n : Nat) :
  base128 n = (Encoding.base128 n).length
  := by
  have hpositive : 0 < base128 n := by
    rw [base128]
    split
    · decide
    · rename_i hn
      have hbits := mt bitWidth_le_iff.mp (a := bitWidth n ≤ 0) (by simpa using hn)
      omega
  have hlength : 0 < (Encoding.base128 n).length := by
    rw [Encoding.base128, List.length_append]
    apply Nat.succ_pos
  apply eq_of_le_iff hpositive hlength
  intro k
  have hbits : base128 n ≤ k + 1 ↔ bitWidth n ≤ 7 * (k + 1) := by
    rw [base128]
    split
    · rename_i hn
      rw [hn]
      simp [bitWidth]
    · omega
  rw [hbits, bitWidth_le_iff, Encoding.length_base128_le_iff, Nat.pow_mul]

theorem field_eq (tag : UInt8) (content : Octets) :
  field content.length = (Encoding.field tag content).length
  := by
  rw [field, Encoding.field, lengthField_eq, List.cons_append, List.length_cons, List.length_append]
  omega

/-- The sum of the lengths of some parts is the length of what they are joined to. -/
theorem total_map {α : Type} {size : α → Nat} {encode : α → Octets}
    (h : ∀ a, size a = (encode a).length) (l : List α) :
  total (l.map size) = (l.flatMap encode).length
  := by
  induction l with
  | nil => rfl
  | cons a rest ih =>
      rw [List.map_cons, total, ih, h, List.flatMap_cons, List.length_append]

theorem oid_eq (a : Oid) :
  oid a = (Encoding.oid a).length
  := by
  obtain ⟨arcs⟩ := a
  cases arcs with
  | nil => exact base128_eq 0
  | cons first arcs =>
      cases arcs with
      | nil =>
          rw [oid, Encoding.oid]
          dsimp only
          rw [base128_eq, Nat.mul_comm, Nat.add_zero]
      | cons second rest =>
          rw [oid, Encoding.oid]
          dsimp only
          rw [base128_eq, Nat.mul_comm, total_map fun arc : UInt32 => base128_eq arc.toNat,
            List.length_append]

end Size

theorem Value.encodedSize_eq (v : Value) :
  v.encodedSize = (Encoding.value v).length
  := by
  have hcontent : v.contentSize = (Encoding.content v).length := by
    cases v with
    | integer n => apply Size.signed_eq
    | objectIdentifier a => apply Size.oid_eq
    | counter32 n | gauge32 n | timeTicks n => apply Size.unsigned_eq
    | counter64 n => apply Size.unsigned_eq
    | octetString _ | opaqueData _ | ipAddress _ _ _ _ => rfl
    | null | noSuchObject | noSuchInstance | endOfMibView => rfl
  rw [encodedSize, hcontent, Encoding.value, ← Size.field_eq]

theorem Binding.encodedSize_eq (b : Binding) :
  b.encodedSize = (Encoding.binding b).length
  := by
  rw [encodedSize, Encoding.binding, ← Size.field_eq, List.length_append, ← Size.field_eq,
    ← Value.encodedSize_eq, ← Size.oid_eq]

theorem Size.bindings_eq (bs : List Binding) :
  bindings bs = (Encoding.bindings bs).length
  := by
  rw [bindings, Encoding.bindings, ← field_eq, total_map Binding.encodedSize_eq]

/-- The sizes are exact. That of a response is the number of octets in which it is encoded, and so
are those of its bindings and their values. The numerals in it are as short as they can be: no
shorter octets are read as the same number, be it a plain one, as in a long length, a signed or an
unsigned one in two's complement, or an arc in base 128. -/
theorem Encoding.sizes_exact :
  (∀ (requestId status index : Int) (bs : List Binding),
      Size.response requestId status index bs = (response requestId status index bs).length)
    ∧ (∀ b : Binding, b.encodedSize = (binding b).length)
    ∧ (∀ v : Value, v.encodedSize = (value v).length)
    ∧ (∀ n, Octets.IsShortest (·.numeral 256 = n) (magnitude n))
    ∧ (∀ n, Octets.IsShortest (fun s => s ≠ [] ∧ s.signedNumeral = n) (signed n))
    ∧ (∀ n : Nat, Octets.IsShortest (fun s => s ≠ [] ∧ s.signedNumeral = n) (unsigned n))
    ∧ (∀ n, Octets.IsShortest (fun s => s.IsContinued ∧ s.numeral 128 = n) (base128 n))
  := by
  refine ⟨?_, Binding.encodedSize_eq, Value.encodedSize_eq, isShortest_magnitude,
    isShortest_signed, isShortest_unsigned, isShortest_base128⟩
  intro requestId status index bs
  rw [response, ← Size.field_eq, List.length_append, List.length_append, List.length_append,
    ← Size.field_eq, ← Size.field_eq, ← Size.field_eq, ← Size.signed_eq, ← Size.signed_eq,
    ← Size.signed_eq, ← Size.bindings_eq]
  rfl

/-- A response with a single binding, in which every length and every numeral takes one octet. -/
example :
  Encoding.response 1 0 0 [⟨⟨[1, 3, 6, 1]⟩, .integer 1⟩]
    = [0xA2, 21, 2, 1, 1, 2, 1, 0, 2, 1, 0, 0x30, 10, 0x30, 8, 6, 3, 0x2B, 6, 1, 2, 1, 1]
  := by decide +kernel

end MibAgent
