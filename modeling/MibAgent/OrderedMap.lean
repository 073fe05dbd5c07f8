/-!
# Ordered maps

A finite map whose entries are listed in ascending order of their keys. There is one map for
each assignment of values to keys (`OrderedMap.ext_get?`), and the order in which the entries
are met is the order of the keys.
-/

namespace MibAgent

/-- Where a range of keys begins, or where it ends: at a key, which is part of the range or not, or
nowhere. -/
inductive Bound (κ : Type) where
  | included (k : κ)
  | excluded (k : κ)
  | unbounded
deriving DecidableEq

/-- Why there is no range of keys from one bound to another: it would begin at a greater key than
the one at which it ends, or it would begin and end at one key that neither bound includes. -/
inductive RangeFault where
  | descending
  | hollow
deriving DecidableEq

namespace Bound

variable {κ : Type} [Ord κ]

/-- Whether a key may be in a range that begins here. -/
def admitsAbove : Bound κ → κ → Bool
  | included lower, k => (compare k lower).isGE
  | excluded lower, k => (compare k lower).isGT
  | unbounded, _ => true

/-- Whether a key may be in a range that ends here. -/
def admitsBelow : Bound κ → κ → Bool
  | included upper, k => (compare k upper).isLE
  | excluded upper, k => (compare k upper).isLT
  | unbounded, _ => true

/-- Why there is no range from one bound to another, if there is none. -/
def fault? : Bound κ → Bound κ → Option RangeFault
  | unbounded, _ | _, unbounded => none
  | excluded lower, excluded upper =>
    match compare lower upper with
    | .lt => none
    | .eq => some .hollow
    | .gt => some .descending
  | included lower, included upper | included lower, excluded upper
  | excluded lower, included upper => if (compare lower upper).isGT then some .descending else none

end Bound

/-- A finite map from `κ` to `α`, with its entries in ascending order of the keys. -/
structure OrderedMap (κ : Type) [Ord κ] (α : Type) where
  entries : List (κ × α)
  ascending : entries.Pairwise fun a b => compare a.1 b.1 = .lt

namespace OrderedMap

variable {κ α : Type} [Ord κ]

/-- The map without entries. -/
def empty : OrderedMap κ α := ⟨[], .nil⟩

instance : Inhabited (OrderedMap κ α) := ⟨empty⟩

/-- The number of entries. -/
def size (m : OrderedMap κ α) : Nat := m.entries.length

/-- Whether there are no entries. -/
def isEmpty (m : OrderedMap κ α) : Bool := m.entries.isEmpty

/-- The keys, in ascending order. -/
def keys (m : OrderedMap κ α) : List κ := m.entries.map (·.1)

/-- The value in a list of entries under a key. -/
def lookupEntry (k : κ) : List (κ × α) → Option α
  | [] => none
  | e :: rest => if compare k e.1 = .eq then some e.2 else lookupEntry k rest

/-- The value under a key. -/
def get? (m : OrderedMap κ α) (k : κ) : Option α := lookupEntry k m.entries

/-- Whether there is a value under a key. -/
def contains (m : OrderedMap κ α) (k : κ) : Bool := (m.get? k).isSome

/-- The entries from one bound to another, in ascending order of the keys. Bounds between which
there is no range are refused. -/
def range (m : OrderedMap κ α) (lower upper : Bound κ) : Except RangeFault (List (κ × α)) :=
  match lower.fault? upper with
  | some fault => .error fault
  | none => .ok (m.entries.filter fun e => lower.admitsAbove e.1 && upper.admitsBelow e.1)

/-- A list of entries with an entry put in its place, instead of one with the same key. -/
def insertEntry (k : κ) (v : α) : List (κ × α) → List (κ × α)
  | [] => [(k, v)]
  | e :: rest =>
    match compare k e.1 with
    | .lt => (k, v) :: e :: rest
    | .eq => (k, v) :: rest
    | .gt => e :: insertEntry k v rest

theorem mem_insertEntry {k : κ} {v : α} {a : κ × α} {l : List (κ × α)}
    (h : a ∈ insertEntry k v l) :
  a = (k, v) ∨ a ∈ l
  := by
  induction l with
  | nil =>
      left
      simpa [insertEntry] using h
  | cons e rest ih =>
      rw [insertEntry] at h
      split at h
      · simpa using h
      · rcases List.mem_cons.mp h with h | h
        · left; apply h
        · right; apply List.mem_cons_of_mem _ h
      · rcases List.mem_cons.mp h with h | h
        · right; simp [h]
        · rcases ih h with h | h
          · left; apply h
          · right; apply List.mem_cons_of_mem _ h

theorem ascending_insertEntry [Std.TransOrd κ] {k : κ} {v : α} {l : List (κ × α)}
    (h : l.Pairwise fun a b => compare a.1 b.1 = .lt) :
  (insertEntry k v l).Pairwise fun a b => compare a.1 b.1 = .lt
  := by
  induction l with
  | nil => simp [insertEntry]
  | cons e rest ih =>
      obtain ⟨hhead, hrest⟩ := List.pairwise_cons.mp h
      rw [insertEntry]
      split
      · rename_i hlt
        apply List.pairwise_cons.mpr
        constructor
        · intro a ha
          rcases List.mem_cons.mp ha with rfl | ha
          · apply hlt
          · apply Std.TransCmp.lt_trans hlt (hhead a ha)
        · apply h
      · rename_i heq
        apply List.pairwise_cons.mpr
        constructor
        · intro a ha
          apply Std.TransCmp.lt_of_eq_of_lt heq (hhead a ha)
        · apply hrest
      · rename_i hgt
        apply List.pairwise_cons.mpr
        constructor
        · intro a ha
          rcases mem_insertEntry ha with rfl | ha
          · apply Std.OrientedCmp.gt_iff_lt.mp hgt
          · apply hhead a ha
        · apply ih hrest

/-- The map with `v` under `k`. -/
def insert [Std.TransOrd κ] (m : OrderedMap κ α) (k : κ) (v : α) : OrderedMap κ α :=
  ⟨insertEntry k v m.entries, ascending_insertEntry m.ascending⟩

/-- The map without an entry under `k`. -/
def erase (m : OrderedMap κ α) (k : κ) : OrderedMap κ α :=
  ⟨m.entries.filter fun e => compare k e.1 ≠ .eq, m.ascending.filter _⟩

/-- The map with the entries of a list, a later one taking the place of an earlier one with the
same key. -/
def ofList [Std.TransOrd κ] (l : List (κ × α)) : OrderedMap κ α :=
  l.foldl (fun m e => m.insert e.1 e.2) empty

/-! ### What is under a key -/

theorem lookupEntry_insertEntry [Std.TransOrd κ] (k k' : κ) (v : α) (l : List (κ × α)) :
  lookupEntry k' (insertEntry k v l) = if compare k' k = .eq then some v else lookupEntry k' l
  := by
  induction l with
  | nil => rfl
  | cons e rest ih =>
      rw [insertEntry]
      split
      · rfl
      · rename_i heq
        simp only [lookupEntry]
        split
        · rfl
        · rename_i hne
          rw [if_neg]
          intro h
          apply hne
          apply Std.TransCmp.eq_trans h (Std.OrientedCmp.eq_symm heq)
      · rename_i hgt
        simp only [lookupEntry, ih]
        split
        · rename_i h
          rw [if_neg]
          intro h'
          have hk : compare k e.1 = .eq :=
            Std.TransCmp.eq_trans (Std.OrientedCmp.eq_symm h') h
          rw [hk] at hgt
          cases hgt
        · rfl

/-- After an insertion the inserted value is under its key, and everything else is where it
was. -/
theorem get?_insert [Std.TransOrd κ] (m : OrderedMap κ α) (k k' : κ) (v : α) :
  (m.insert k v).get? k' = if compare k' k = .eq then some v else m.get? k'
  := lookupEntry_insertEntry k k' v m.entries

theorem lookupEntry_filter [Std.TransOrd κ] (k k' : κ) (l : List (κ × α)) :
  lookupEntry k' (l.filter fun e => compare k e.1 ≠ .eq)
    = if compare k' k = .eq then none else lookupEntry k' l
  := by
  induction l with
  | nil => simp [lookupEntry]
  | cons e rest ih =>
      by_cases hk : compare k e.1 = .eq
      · rw [List.filter_cons_of_neg (by simpa using hk), ih]
        split
        · rfl
        · rename_i hne
          rw [lookupEntry, if_neg]
          intro h
          apply hne
          apply Std.TransCmp.eq_trans h (Std.OrientedCmp.eq_symm hk)
      · rw [List.filter_cons_of_pos (by simpa using hk), lookupEntry, lookupEntry, ih]
        by_cases h : compare k' e.1 = .eq
        · rw [if_pos h, if_neg, if_pos h]
          intro h'
          apply hk
          apply Std.TransCmp.eq_trans (Std.OrientedCmp.eq_symm h') h
        · rw [if_neg h, if_neg h]

/-- After an erasure nothing is under the erased key, and everything else is where it was. -/
theorem get?_erase [Std.TransOrd κ] (m : OrderedMap κ α) (k k' : κ) :
  (m.erase k).get? k' = if compare k' k = .eq then none else m.get? k'
  := lookupEntry_filter k k' m.entries

/-! ### Equality of maps -/

theorem lookupEntry_eq_none {k : κ} {l : List (κ × α)} (h : ∀ a ∈ l, compare k a.1 ≠ .eq) :
  lookupEntry k l = none
  := by
  induction l with
  | nil => rfl
  | cons e rest ih =>
      rw [lookupEntry, if_neg (h e List.mem_cons_self)]
      apply ih
      intro a ha
      apply h a (List.mem_cons_of_mem _ ha)

theorem lookupEntry_eq_none_of_lt [Std.TransOrd κ] {k : κ} {e : κ × α} {l : List (κ × α)}
    (hk : compare k e.1 = .lt ∨ compare k e.1 = .eq)
    (h : (e :: l).Pairwise fun a b => compare a.1 b.1 = .lt) :
  lookupEntry k l = none
  := by
  apply lookupEntry_eq_none
  intro a ha heq
  have hlt := (List.pairwise_cons.mp h).1 a ha
  have hka : compare k a.1 = .lt := by
    rcases hk with hk | hk
    · apply Std.TransCmp.lt_trans hk hlt
    · apply Std.TransCmp.lt_of_eq_of_lt hk hlt
  rw [heq] at hka
  cases hka

theorem eq_of_lookupEntry [Std.TransOrd κ] [Std.LawfulEqOrd κ] {l l' : List (κ × α)}
    (h : l.Pairwise fun a b => compare a.1 b.1 = .lt)
    (h' : l'.Pairwise fun a b => compare a.1 b.1 = .lt)
    (heq : ∀ k, lookupEntry k l = lookupEntry k l') :
  l = l'
  := by
  induction l generalizing l' with
  | nil =>
      cases l' with
      | nil => rfl
      | cons e' rest' => simpa [lookupEntry] using heq e'.1
  | cons e rest ih =>
      cases l' with
      | nil => simpa [lookupEntry] using heq e.1
      | cons e' rest' =>
          have hself : compare e.1 e.1 = .eq := Std.ReflCmp.compare_self
          have hkey : compare e.1 e'.1 = .eq := by
            cases hc : compare e.1 e'.1 with
            | eq => rfl
            | lt =>
                have hnone := lookupEntry_eq_none_of_lt (.inl hc) h'
                have hat := heq e.1
                simp [lookupEntry, hc, hnone] at hat
            | gt =>
                have hlt := Std.OrientedCmp.gt_iff_lt.mp hc
                have hnone := lookupEntry_eq_none_of_lt (.inl hlt) h
                have hat := heq e'.1
                simp [lookupEntry, hlt, hnone] at hat
          have hval := heq e.1
          simp only [lookupEntry, hself, hkey, if_true, Option.some.injEq] at hval
          have hee : e = e' := Prod.ext (Std.LawfulEqOrd.eq_of_compare hkey) hval
          subst hee
          congr 1
          apply ih (List.pairwise_cons.mp h).2 (List.pairwise_cons.mp h').2
          intro k
          by_cases hk : compare k e.1 = .eq
          · rw [lookupEntry_eq_none_of_lt (.inr hk) h, lookupEntry_eq_none_of_lt (.inr hk) h']
          · have hat := heq k
            rwa [lookupEntry, lookupEntry, if_neg hk, if_neg hk] at hat

/-- Two maps with the same value under each key are the same map. -/
theorem ext_get? [Std.TransOrd κ] [Std.LawfulEqOrd κ] {m m' : OrderedMap κ α}
    (h : ∀ k, m.get? k = m'.get? k) :
  m = m'
  := by
  have hentries := eq_of_lookupEntry m.ascending m'.ascending h
  cases m
  cases m'
  simpa using hentries

end OrderedMap

end MibAgent
