import MibAgent.Oid.Parser
import Mathlib.Data.List.Forall2

/-!
# Dotted notation

An OID can be written in many ways: with a dot in front or without, and each arc with or without a
plus sign and with any number of zeros in front. All of these are read, and nothing else, as long as
there are no more arcs than allowed. Printing an OID gives the only way to write it that has none of
these additions.
-/

namespace MibAgent

theorem map_eq_ok_iff {ε α β : Type} {e : Except ε α} {f : α → β} {b : β} :
  e.map f = .ok b ↔ ∃ a, e = .ok a ∧ f a = b
  := by
  cases e with
  | error fault => simp [Except.map]
  | ok a => simp [Except.map]

namespace Oid

/-! ### Numbers -/

/-- The digits write a number. There is at least one, and zeros may come first. -/
structure WritesNumber (digits : List Char) (n : Nat) : Prop where
  nonempty : digits ≠ []
  isDigit : ∀ c ∈ digits, c.isDigit
  value : Nat.ofDigitChars 10 digits 0 = n

theorem digit?_eq (c : Char) :
  digit? c = if c.isDigit then some (c.toNat - '0'.toNat) else none
  := by
  simp [digit?, Char.isDigit, Char.le_def]

theorem digits?_eq_some_iff {acc n : Nat} {text : List Char} :
  digits? acc text = some n ↔ (∀ c ∈ text, c.isDigit) ∧ Nat.ofDigitChars 10 text acc = n
  := by
  induction text generalizing acc with
  | nil => simp [digits?]
  | cons c rest ih =>
      rw [digits?, digit?_eq, Nat.ofDigitChars_cons, List.forall_mem_cons]
      cases hc : c.isDigit with
      | false => simp
      | true => simp [ih]

theorem number?_eq_some_iff {text : List Char} {n : Nat} :
  number? text = some n ↔ WritesNumber text n
  := by
  cases text with
  | nil =>
      apply iff_of_false nofun
      intro h
      apply h.nonempty rfl
  | cons c rest =>
      rw [number?, digits?_eq_some_iff]
      · constructor
        · rintro ⟨hdigits, hvalue⟩
          exact ⟨nofun, hdigits, hvalue⟩
        · intro h
          exact ⟨h.isDigit, h.value⟩
      · nofun

theorem writesNumber_toDigits (n : Nat) :
  WritesNumber (Nat.toDigits 10 n) n
  where
  nonempty := Nat.toDigits_ne_nil
  isDigit _ := Nat.isDigit_of_mem_toDigits (by decide) (by decide)
  value := Nat.ofDigitChars_ten_toDigits

theorem toDigits_digit {c : Char} (hc : c.isDigit) :
  c.toNat - '0'.toNat < 10 ∧ Nat.toDigits 10 (c.toNat - '0'.toNat) = [c]
  := by
  obtain ⟨hlow, hhigh⟩ := Char.isDigit_iff_toNat.mp hc
  have hlt : c.toNat - '0'.toNat < 10 := by
    change c.toNat ≤ 57 at hhigh
    change c.toNat - 48 < 10
    omega
  use hlt
  rw [Nat.toDigits_of_lt_base hlt]
  congr 1
  apply Char.toNat_inj.mp
  rw [Nat.toNat_digitChar_of_lt_ten hlt]
  apply Nat.add_sub_of_le hlow

/-- Digits that continue the digits of a positive number in print are in print too. -/
theorem toDigits_append {acc : Nat} (hacc : 0 < acc) {digits : List Char}
    (hdigits : ∀ c ∈ digits, c.isDigit) :
  Nat.toDigits 10 acc ++ digits = Nat.toDigits 10 (Nat.ofDigitChars 10 digits acc)
  := by
  induction digits generalizing acc with
  | nil => simp
  | cons c rest ih =>
      rw [List.forall_mem_cons] at hdigits
      obtain ⟨hlt, hdigit⟩ := toDigits_digit hdigits.1
      have hnext : 0 < 10 * acc + (c.toNat - '0'.toNat) := by omega
      calc
        Nat.toDigits 10 acc ++ c :: rest = (Nat.toDigits 10 acc ++ [c]) ++ rest := by simp
        _ = Nat.toDigits 10 (10 * acc + (c.toNat - '0'.toNat)) ++ rest := by
          rw [← Nat.toDigits_append_toDigits (by decide) hacc hlt, hdigit]
        _ = Nat.toDigits 10 (Nat.ofDigitChars 10 (c :: rest) acc) := by
          rw [ih hnext hdigits.2, Nat.ofDigitChars_cons]

/-- Digits without superfluous zeros in front are the digits of the number in print. -/
theorem WritesNumber.eq_toDigits {digits : List Char} {n : Nat} (h : WritesNumber digits n)
    (hpadded : ∀ c rest, digits ≠ '0' :: c :: rest) :
  digits = Nat.toDigits 10 n
  := by
  cases digits with
  | nil => apply absurd rfl h.nonempty
  | cons c rest =>
      have hdigits := List.forall_mem_cons.mp h.isDigit
      obtain ⟨-, hdigit⟩ := toDigits_digit hdigits.1
      rw [← h.value, Nat.ofDigitChars_cons, Nat.mul_zero, Nat.zero_add]
      rcases Nat.eq_zero_or_pos (c.toNat - '0'.toNat) with hzero | hpos
      · rw [hzero, Nat.toDigits_zero] at hdigit
        cases hdigit
        cases rest with
        | nil => rfl
        | cons d rest => apply absurd rfl (hpadded d rest)
      · rw [← toDigits_append hpos hdigits.2, hdigit]
        rfl

/-- A number in print has no superfluous zeros in front. -/
theorem toDigits_ne_padded (n : Nat) (c : Char) (rest : List Char) :
  Nat.toDigits 10 n ≠ '0' :: c :: rest
  := by
  have hhead : 0 < n → (Nat.toDigits 10 n).head? ≠ some '0' := by
    induction n using Nat.base_induction 10 (by decide) with
    | single m hm =>
        intro hpos
        rw [Nat.toDigits_of_lt_base hm, List.head?_cons, ne_eq, Option.some_inj,
          Nat.digitChar_eq_zero]
        apply Nat.ne_of_gt hpos
    | digit m k hk hm ih =>
        intro _
        rw [← Nat.toDigits_append_toDigits (by decide) hm hk,
          List.head?_append_of_ne_nil _ Nat.toDigits_ne_nil]
        apply ih hm
  rcases Nat.eq_zero_or_pos n with rfl | hpos
  · rw [Nat.toDigits_zero]
    nofun
  · intro heq
    apply hhead hpos
    rw [heq]
    rfl

/-! ### Arcs -/

/-- The text writes an arc: a number, with or without a plus sign. -/
inductive WritesArc (arc : UInt32) : List Char → Prop where
  | plain {digits : List Char} (h : WritesNumber digits arc.toNat) : WritesArc arc digits
  | signed {digits : List Char} (h : WritesNumber digits arc.toNat) : WritesArc arc ('+' :: digits)

theorem arc?_eq (text : List Char) :
  arc? text
    = (number? (if text.head? = some '+' then text.tail else text)).bind fun n =>
        if n < UInt32.size then some (UInt32.ofNat n) else none
  := by
  rw [arc?]
  cases number? (if text.head? = some '+' then text.tail else text) with
  | none => rfl
  | some n => rfl

theorem arc?_eq_some_iff {text : List Char} {arc : UInt32} :
  arc? text = some arc ↔ WritesArc arc text
  := by
  have hfits : ∀ n, (if n < UInt32.size then some (UInt32.ofNat n) else none) = some arc
      ↔ n = arc.toNat := by
    intro n
    by_cases hn : n < UInt32.size
    · rw [if_pos hn, Option.some_inj, ← UInt32.toNat_inj, UInt32.toNat_ofNat_of_lt' hn]
    · rw [if_neg hn]
      apply iff_of_false nofun
      rintro rfl
      apply hn arc.toNat_lt
  simp only [arc?_eq, Option.bind_eq_some_iff, hfits, exists_eq_right, number?_eq_some_iff]
  split
  · rename_i hplus
    obtain ⟨digits, rfl⟩ := List.head?_eq_some_iff.mp hplus
    constructor
    · apply WritesArc.signed
    · rintro (h | h)
      · cases h.isDigit '+' List.mem_cons_self
      · apply h
  · rename_i hplain
    constructor
    · apply WritesArc.plain
    · rintro (h | h)
      · apply h
      · apply absurd rfl hplain

theorem WritesNumber.dot_notMem {digits : List Char} {n : Nat} (h : WritesNumber digits n) :
  '.' ∉ digits
  := by
  intro hdot
  cases h.isDigit '.' hdot

/-- An arc is written by characters other than dots, of which there is at least one. -/
theorem WritesArc.undotted {arc : UInt32} {text : List Char} (h : WritesArc arc text) :
  text ≠ [] ∧ '.' ∉ text
  := by
  cases h with
  | plain h => exact ⟨h.nonempty, h.dot_notMem⟩
  | signed h =>
      use nofun
      rw [List.mem_cons, not_or]
      exact ⟨by decide, h.dot_notMem⟩

section

variable {count : Nat} {arcs : List UInt32} {parts : List (List Char)}

/-- The arcs that the parts write are read, if that many are allowed. -/
theorem arcsOf_eq_ok_iff (hcount : count ≤ maxLength) :
  arcsOf count parts = .ok arcs
    ↔ List.Forall₂ WritesArc arcs parts ∧ count + arcs.length ≤ maxLength
  := by
  induction parts generalizing count arcs with
  | nil =>
      rw [arcsOf, List.forall₂_nil_right_iff, Except.ok.injEq]
      constructor
      · rintro rfl
        exact ⟨rfl, hcount⟩
      · rintro ⟨rfl, -⟩
        rfl
  | cons part rest ih =>
      rw [arcsOf, List.forall₂_cons_right_iff]
      cases hpart : arc? part with
      | none =>
          apply iff_of_false nofun
          rintro ⟨⟨arc, _, harc, -⟩, -⟩
          rw [arc?_eq_some_iff.mpr harc] at hpart
          cases hpart
      | some arc =>
          dsimp only
          split
          · rename_i hlimit
            apply iff_of_false nofun
            rintro ⟨⟨_, _, _, _, rfl⟩, hlength⟩
            rw [List.length_cons] at hlength
            omega
          · rename_i hlimit
            rw [map_eq_ok_iff]
            constructor
            · rintro ⟨later, hread, rfl⟩
              obtain ⟨hwritten, hlength⟩ := (ih (Nat.not_lt.mp hlimit)).mp hread
              rw [List.length_cons]
              exact ⟨⟨arc, later, arc?_eq_some_iff.mp hpart, hwritten, rfl⟩, by omega⟩
            · rintro ⟨⟨other, later, hother, hwritten, rfl⟩, hlength⟩
              rw [List.length_cons] at hlength
              cases hpart.symm.trans (arc?_eq_some_iff.mpr hother)
              exact ⟨later, (ih (Nat.not_lt.mp hlimit)).mpr ⟨hwritten, by omega⟩, rfl⟩

theorem arcsOf_eq_tooManyArcs (h : List.Forall₂ WritesArc arcs parts) (hcount : count ≤ maxLength)
    (hmany : maxLength < count + arcs.length) :
  arcsOf count parts = .error (.tooManyArcs (maxLength + 1) maxLength)
  := by
  induction h generalizing count with
  | nil => apply absurd hmany (Nat.not_lt.mpr hcount)
  | cons harc _ ih =>
      rw [List.length_cons] at hmany
      rw [arcsOf, arc?_eq_some_iff.mpr harc]
      dsimp only
      split
      · rename_i hlimit
        rw [Nat.le_antisymm hcount (Nat.le_of_lt_succ hlimit)]
      · rename_i hlimit
        rw [ih (Nat.not_lt.mp hlimit) (by omega)]
        rfl

end

/-! ### OIDs -/

/-- The text writes an OID: its arcs, separated by dots, with or without a dot in front. -/
def Writes (text : String) (o : Oid) : Prop :=
  ∃ dot parts, (dot = [] ∨ dot = ['.']) ∧ List.Forall₂ WritesArc o.arcs parts
    ∧ text.toList = dot ++ ['.'].intercalate parts

section

variable {arcs : List UInt32} {parts : List (List Char)} (h : List.Forall₂ WritesArc arcs parts)
include h

theorem undotted_of_writesArc :
  ∀ part ∈ parts, part ≠ [] ∧ '.' ∉ part
  := by
  induction h with
  | nil => nofun
  | cons harc _ ih =>
      rw [List.forall_mem_cons]
      exact ⟨harc.undotted, ih⟩

variable (hparts : parts ≠ [])
include hparts

/-- The parts are found again at the dots between them. -/
theorem splitOn_of_writesArc :
  (['.'].intercalate parts).splitOn '.' = parts
  := by
  apply List.splitOn_intercalate _ _ hparts
  intro part hpart
  apply (undotted_of_writesArc h part hpart).2

/-- Text that consists of arcs does not start with a dot. -/
theorem exists_intercalate_eq_cons :
  ∃ c rest, ['.'].intercalate parts = c :: rest ∧ c ≠ '.'
  := by
  obtain ⟨part, others, rfl⟩ := List.exists_cons_of_ne_nil hparts
  obtain ⟨hnonempty, hno⟩ := undotted_of_writesArc h part List.mem_cons_self
  obtain ⟨c, rest, rfl⟩ := List.exists_cons_of_ne_nil hnonempty
  rw [List.intercalate_cons_cons_left]
  refine ⟨c, _, rfl, ?_⟩
  rintro rfl
  apply hno List.mem_cons_self

/-- Text that consists of arcs, perhaps after a dot, is read arc by arc. -/
theorem parse_of_parts {text : String} {dot : List Char} (hdot : dot = [] ∨ dot = ['.'])
    (htext : text.toList = dot ++ ['.'].intercalate parts) :
  parse text = (arcsOf 0 parts).map Oid.mk
  := by
  have hsplit := splitOn_of_writesArc h hparts
  obtain ⟨c, rest, hbody, hc⟩ := exists_intercalate_eq_cons h hparts
  rw [hbody] at htext hsplit
  rcases hdot with rfl | rfl
  · simp [parse, htext, hc, hsplit]
  · simp [parse, htext, hsplit]

end

/-- Text that is read consists of parts. -/
theorem exists_parts {text : String} {o : Oid} (h : parse text = .ok o) :
  ∃ dot parts, (dot = [] ∨ dot = ['.']) ∧ parts ≠ [] ∧ arcsOf 0 parts = .ok o.arcs
    ∧ text.toList = dot ++ ['.'].intercalate parts
  := by
  have hread : ∀ body : List Char,
      (if body.isEmpty then .error .empty else (arcsOf 0 (body.splitOn '.')).map Oid.mk) = .ok o →
      arcsOf 0 (body.splitOn '.') = .ok o.arcs := by
    intro body hbody
    split at hbody
    · cases hbody
    · obtain ⟨arcs, harcs, rfl⟩ := map_eq_ok_iff.mp hbody
      apply harcs
  have harcs := hread _ h
  split at harcs
  · rename_i hdot
    obtain ⟨body, hbody⟩ := List.head?_eq_some_iff.mp hdot
    rw [hbody, List.tail_cons] at harcs
    refine ⟨_, _, .inr rfl, List.splitOn_ne_nil _ _, harcs, ?_⟩
    rw [List.intercalate_splitOn, hbody]
    rfl
  · refine ⟨_, _, .inl rfl, List.splitOn_ne_nil _ _, harcs, ?_⟩
    rw [List.intercalate_splitOn]
    rfl

/-- Text that writes an OID with at least one arc is read arc by arc. -/
theorem Writes.exists_parts {text : String} {o : Oid} (h : Writes text o) (hlength : 0 < o.length) :
  ∃ parts, List.Forall₂ WritesArc o.arcs parts ∧ parse text = (arcsOf 0 parts).map Oid.mk
  := by
  obtain ⟨dot, parts, hdot, hparts, htext⟩ := h
  use parts, hparts
  apply parse_of_parts hparts _ hdot htext
  rintro rfl
  rw [List.forall₂_nil_right_iff] at hparts
  rw [length, hparts] at hlength
  apply Nat.lt_irrefl 0 hlength

/-- Text is read as an OID when it writes that OID, which has at least one arc and no more than are
allowed. -/
theorem parse_eq_ok_iff {text : String} {o : Oid} :
  parse text = .ok o ↔ Writes text o ∧ 0 < o.length ∧ o.length ≤ maxLength
  := by
  constructor
  · intro h
    obtain ⟨dot, parts, hdot, hparts, harcs, htext⟩ := exists_parts h
    obtain ⟨hwritten, hlength⟩ := (arcsOf_eq_ok_iff (Nat.zero_le _)).mp harcs
    rw [Nat.zero_add] at hlength
    refine ⟨⟨dot, parts, hdot, hwritten, htext⟩, ?_, hlength⟩
    rw [length, hwritten.length_eq]
    apply List.length_pos_of_ne_nil hparts
  · rintro ⟨hwrites, hpos, hlength⟩
    obtain ⟨parts, hparts, hparse⟩ := hwrites.exists_parts hpos
    rw [length, ← Nat.zero_add o.arcs.length] at hlength
    rw [hparse, (arcsOf_eq_ok_iff (Nat.zero_le _)).mpr ⟨hparts, hlength⟩]
    rfl

theorem parse_eq_tooManyArcs {text : String} {o : Oid} (h : Writes text o)
    (hmany : maxLength < o.length) :
  parse text = .error (.tooManyArcs (maxLength + 1) maxLength)
  := by
  obtain ⟨parts, hparts, hparse⟩ := h.exists_parts (Nat.zero_lt_of_lt hmany)
  rw [length, ← Nat.zero_add o.arcs.length] at hmany
  rw [hparse, arcsOf_eq_tooManyArcs hparts (Nat.zero_le _) hmany]
  rfl

/-! ### OIDs in print -/

/-- The digits of the arcs. -/
def numerals (o : Oid) : List (List Char) := o.arcs.map fun arc => Nat.toDigits 10 arc.toNat

theorem toList_toText (o : Oid) :
  o.toText.toList = ['.'].intercalate o.numerals
  := by
  rw [toText, String.toList_intercalate, List.map_map, numerals]
  congr 2
  funext arc
  apply Nat.toList_repr

theorem forall₂_numerals (o : Oid) :
  List.Forall₂ WritesArc o.arcs o.numerals
  := by
  rw [numerals, List.forall₂_map_right_iff, List.forall₂_same]
  intro arc _
  exact .plain (writesNumber_toDigits _)

theorem writes_toText (o : Oid) :
  Writes o.toText o
  := ⟨[], o.numerals, .inl rfl, o.forall₂_numerals, o.toList_toText⟩

/-- An OID in print is read back, unless it has no arcs or more than are allowed. -/
theorem parse_toText (o : Oid) :
  parse o.toText
    = if o.isRoot then .error .empty
      else if maxLength < o.length then .error (.tooManyArcs (maxLength + 1) maxLength)
      else .ok o
  := by
  split
  · rename_i hroot
    obtain ⟨arcs⟩ := o
    cases arcs with
    | nil => rfl
    | cons => cases hroot
  · rename_i hroot
    split
    · rename_i hmany
      apply parse_eq_tooManyArcs o.writes_toText hmany
    · rename_i hmany
      refine parse_eq_ok_iff.mpr ⟨o.writes_toText, ?_, Nat.not_lt.mp hmany⟩
      apply List.length_pos_of_ne_nil
      rwa [isRoot, List.isEmpty_iff] at hroot

/-- The text has no dot in front, no plus signs and no superfluous zeros. -/
structure IsPlain (text : String) : Prop where
  undotted : text.toList.head? ≠ some '.'
  unsigned : '+' ∉ text.toList
  unpadded : ∀ part ∈ text.toList.splitOn '.', ∀ c rest, part ≠ '0' :: c :: rest

theorem mem_intercalate {c : Char} (hc : c ≠ '.') (parts : List (List Char)) :
  c ∈ ['.'].intercalate parts ↔ ∃ part ∈ parts, c ∈ part
  := by
  induction parts with
  | nil => simp
  | cons part others ih =>
      cases others with
      | nil => simp
      | cons other others =>
          rw [List.intercalate_cons_cons, List.mem_append, List.mem_append, ih]
          simp [hc]

/-- Arcs written without plus signs and superfluous zeros are written by their digits. -/
theorem eq_numerals {o : Oid} {parts : List (List Char)} (h : List.Forall₂ WritesArc o.arcs parts)
    (hunsigned : ∀ part ∈ parts, '+' ∉ part)
    (hunpadded : ∀ part ∈ parts, ∀ c rest, part ≠ '0' :: c :: rest) :
  parts = o.numerals
  := by
  obtain ⟨arcs⟩ := o
  unfold numerals
  dsimp only at h ⊢
  induction h with
  | nil => rfl
  | cons harc _ ih =>
      rw [List.forall_mem_cons] at hunsigned hunpadded
      rw [List.map_cons, ← ih hunsigned.2 hunpadded.2]
      cases harc with
      | plain hnumber => rw [hnumber.eq_toDigits hunpadded.1]
      | signed => apply absurd List.mem_cons_self hunsigned.1

/-- Text that writes an OID in the plain way is the OID in print. -/
theorem Writes.eq_toText {text : String} {o : Oid} (h : Writes text o) (hplain : IsPlain text) :
  text = o.toText
  := by
  obtain ⟨dot, parts, rfl | rfl, hwritten, htext⟩ := h
  · rw [List.nil_append] at htext
    apply String.toList_injective
    rw [toList_toText, htext]
    by_cases hparts : parts = []
    · subst hparts
      rw [List.forall₂_nil_right_iff] at hwritten
      rw [numerals, hwritten, List.map_nil]
    · congr 1
      apply eq_numerals hwritten
      · intro part hpart hplus
        apply hplain.unsigned
        rw [htext, mem_intercalate (by decide)]
        exact ⟨part, hpart, hplus⟩
      · have hunpadded := hplain.unpadded
        rwa [htext, splitOn_of_writesArc hwritten hparts] at hunpadded
  · apply absurd _ hplain.undotted
    rw [htext]
    rfl

theorem numeral_ne_padded {o : Oid} :
  ∀ part ∈ o.numerals, ∀ c rest, part ≠ '0' :: c :: rest
  := by
  rw [numerals, List.forall_mem_map]
  intro arc _
  apply toDigits_ne_padded

/-- An OID in print is written in the plain way. -/
theorem isPlain_toText {o : Oid} (h : 0 < o.length) :
  IsPlain o.toText
  := by
  have hne : o.numerals ≠ [] := by
    rw [numerals, ne_eq, List.map_eq_nil_iff]
    apply List.ne_nil_of_length_pos h
  constructor
  case undotted =>
    obtain ⟨c, rest, hbody, hc⟩ := exists_intercalate_eq_cons o.forall₂_numerals hne
    rw [toList_toText, hbody, List.head?_cons]
    intro heq
    apply hc (Option.some_inj.mp heq)
  case unsigned =>
    rw [toList_toText, mem_intercalate (by decide), numerals]
    rintro ⟨_, hpart, hplus⟩
    obtain ⟨arc, -, rfl⟩ := List.mem_map.mp hpart
    cases (writesNumber_toDigits _).isDigit '+' hplus
  case unpadded =>
    rw [toList_toText, splitOn_of_writesArc o.forall₂_numerals hne]
    apply numeral_ne_padded

/-- Printing and reading OIDs fit together. An OID in print is read back if it has at least one arc
and no more than 128. What is read is exactly what writes such an OID, and among all that is read
as one OID, only the OID in print is plain. -/
theorem dotted_notation :
  (∀ o : Oid, parse o.toText
      = if o.isRoot then .error .empty
        else if 128 < o.length then .error (.tooManyArcs 129 128)
        else .ok o)
  ∧ (∀ (text : String) (o : Oid),
      parse text = .ok o ↔ Writes text o ∧ 0 < o.length ∧ o.length ≤ 128)
  ∧ ∀ (text : String) (o : Oid), parse text = .ok o →
      (0 < o.length ∧ o.length ≤ 128) ∧ parse o.toText = .ok o
      ∧ (IsPlain text ↔ text = o.toText)
  := by
  refine ⟨parse_toText, fun _ _ => parse_eq_ok_iff, ?_⟩
  intro text o h
  obtain ⟨hwrites, hlength⟩ := parse_eq_ok_iff.mp h
  refine ⟨hlength, parse_eq_ok_iff.mpr ⟨o.writes_toText, hlength⟩, ?_⟩
  constructor
  · apply hwrites.eq_toText
  · rintro rfl
    apply isPlain_toText hlength.1

/-- The third arc of `.1.+3.006` has zeros in front, and its second one a plus sign. -/
theorem dotted_notation_adorned :
  parse ".1.+3.006" = .ok ⟨[1, 3, 6]⟩ ∧ parse "1.3.6" = .ok ⟨[1, 3, 6]⟩ ∧ ¬ IsPlain ".1.+3.006"
  := by
  have hadorned : parse ".1.+3.006" = .ok ⟨[1, 3, 6]⟩ := by decide +kernel
  have htext : toText ⟨[1, 3, 6]⟩ = "1.3.6" := by decide +kernel
  obtain ⟨-, hread, hplain⟩ := dotted_notation.2.2 _ _ hadorned
  rw [htext] at hread hplain
  refine ⟨hadorned, hread, ?_⟩
  rw [hplain]
  decide

end Oid

end MibAgent
