import MibAgent.LockTable
import Mathlib.Data.Multiset.Count

/-!
# Tables of locks

An owner that locks objects adds to what the table of locks shows, and takes away from it again by
unlocking them. The order does not matter: what is added is a multiset of objects, and when
nothing is left of it the table is what it was.
-/

namespace MibAgent.LockTable

variable {base t t' : LockTable} {owner : LockOwner} {object : ObjectId}
  {extra : Multiset ObjectId}

theorem hold?_insert (object' : ObjectId) (hold : Hold) :
  hold? ⟨t.holds.insert object hold⟩ object'
    = if object' = object then some hold else t.hold? object'
  := by
  rw [LockTable.hold?, OrderedMap.get?_insert]
  simp only [Std.LawfulEqOrd.compare_eq_iff_eq]
  rfl

theorem hold?_erase (object' : ObjectId) :
  hold? ⟨t.holds.erase object⟩ object'
    = if object' = object then none else t.hold? object'
  := by
  rw [LockTable.hold?, OrderedMap.get?_erase]
  simp only [Std.LawfulEqOrd.compare_eq_iff_eq]
  rfl

/-- Tables that show the same holds are the same. -/
theorem ext_hold? (h : ∀ object, t.hold? object = t'.hold? object) :
  t = t'
  := by
  obtain ⟨holds⟩ := t
  obtain ⟨holds'⟩ := t'
  congr 1
  apply OrderedMap.ext_get? h

/-! ### Locking and unlocking -/

/-- How many times an owner holds the lock on an object, unless someone else holds it. -/
def share? (t : LockTable) (owner : LockOwner) (object : ObjectId) : Option Nat :=
  match t.hold? object with
  | none => some 0
  | some hold => if hold.owner = owner then some hold.count else none

theorem share?_of_hold? {n : Nat} (h : t.hold? object = some ⟨owner, n⟩) :
  t.share? owner object = some n
  := by
  rw [share?, h]
  apply if_pos rfl

/-- Locking an object adds to the share of the owner. -/
theorem acquire?_eq :
  t.acquire? owner object
    = (t.share? owner object).map fun n => ⟨t.holds.insert object ⟨owner, n + 1⟩⟩
  := by
  rw [acquire?, share?]
  cases t.hold? object with
  | none => rfl
  | some hold =>
      dsimp only
      split
      · rfl
      · rfl

/-- Unlocking an object takes away from the share of the owner. -/
theorem unlock_eq {n : Nat} (h : t.hold? object = some ⟨owner, n + 1⟩) :
  (t.unlock owner object).2
    = ⟨if n = 0 then t.holds.erase object else t.holds.insert object ⟨owner, n⟩⟩
  := by
  rw [unlock, release?, h]
  dsimp only
  rw [if_pos rfl]
  cases n with
  | zero => rfl
  | succ n => rfl

/-! ### Counts -/

/-- Objects that are locked are still to be unlocked. -/
def IsCounted (t : LockTable) : Prop :=
  ∀ object hold, t.hold? object = some hold → 0 < hold.count

namespace IsCounted

theorem empty :
  LockTable.empty.IsCounted
  := nofun

theorem insert (h : t.IsCounted) (object : ObjectId) {hold : Hold} (hhold : 0 < hold.count) :
  IsCounted ⟨t.holds.insert object hold⟩
  := by
  intro object' hold' hold'_eq
  rw [hold?_insert] at hold'_eq
  split at hold'_eq
  · cases hold'_eq
    apply hhold
  · apply h object' hold' hold'_eq

theorem erase (h : t.IsCounted) (object : ObjectId) :
  IsCounted ⟨t.holds.erase object⟩
  := by
  intro object' hold' hold'_eq
  rw [hold?_erase] at hold'_eq
  split at hold'_eq
  · cases hold'_eq
  · apply h object' hold' hold'_eq

theorem attempt (h : t.IsCounted) (owner : LockOwner) (object : ObjectId) :
  (t.attempt owner object).2.IsCounted
  := by
  rw [LockTable.attempt, acquire?_eq]
  cases t.share? owner object with
  | none => apply h
  | some n => apply h.insert object (Nat.succ_pos n)

theorem unlock (h : t.IsCounted) (owner : LockOwner) (object : ObjectId) :
  (t.unlock owner object).2.IsCounted
  := by
  rw [LockTable.unlock, release?]
  split
  · rename_i hrelease
    split at hrelease
    · cases hrelease
    · split at hrelease
      · split at hrelease
        · cases hrelease
          apply h.erase
        · cases hrelease
          apply h.insert
          apply Nat.sub_pos_of_lt
          omega
      · cases hrelease
  · apply h

/-- An owner's share tells what the table shows. -/
theorem hold?_eq (h : t.IsCounted) {n : Nat} (hn : t.share? owner object = some n) :
  t.hold? object = if n = 0 then none else some ⟨owner, n⟩
  := by
  rw [share?] at hn
  cases hhold : t.hold? object with
  | none =>
      rw [hhold] at hn
      cases hn
      rfl
  | some hold =>
      rw [hhold] at hn
      dsimp only at hn
      split at hn
      · rename_i howner
        cases hn
        subst howner
        rw [if_neg (h object hold hhold).ne']
      · cases hn

end IsCounted

/-! ### What an owner adds -/

/-- The table shows what `base` shows, and that `owner` has locked some objects in addition. -/
structure Exceeds (t base : LockTable) (owner : LockOwner) (extra : Multiset ObjectId) :
    Prop where
  others : ∀ object ∉ extra, t.hold? object = base.hold? object
  owned : ∀ object ∈ extra, ∃ n, base.share? owner object = some n
    ∧ t.hold? object = some ⟨owner, n + extra.count object⟩

namespace Exceeds

theorem refl (t : LockTable) (owner : LockOwner) :
  t.Exceeds t owner 0
  := by
  constructor
  · intro object _
    rfl
  · intro object hobject
    apply absurd hobject (Multiset.notMem_zero object)

/-- When nothing is added the table is what it was. -/
theorem eq_base (h : t.Exceeds base owner 0) :
  t = base
  := by
  apply ext_hold?
  intro object
  apply h.others object (Multiset.notMem_zero object)

theorem held (h : t.Exceeds base owner extra) (hobject : object ∈ extra) :
  ∃ n, t.hold? object = some ⟨owner, n⟩
  := by
  obtain ⟨n, -, hhold⟩ := h.owned object hobject
  exact ⟨_, hhold⟩

/-- What the owner adds is added to its share. -/
theorem share?_eq (h : t.Exceeds base owner extra) (object : ObjectId) :
  t.share? owner object = (base.share? owner object).map (· + extra.count object)
  := by
  by_cases hobject : object ∈ extra
  · obtain ⟨n, hn, hhold⟩ := h.owned object hobject
    rw [hn, share?_of_hold? hhold]
    rfl
  · rw [Multiset.count_eq_zero_of_notMem hobject, share?, h.others object hobject]
    change base.share? owner object = _
    cases base.share? owner object with
    | none => rfl
    | some n => rfl

/-- The owner locks one more object. -/
theorem acquire (h : t.Exceeds base owner extra) (hacquire : t.acquire? owner object = some t') :
  t'.Exceeds base owner (object ::ₘ extra)
  := by
  rw [acquire?_eq, h.share?_eq] at hacquire
  obtain ⟨_, hm, rfl⟩ := Option.map_eq_some_iff.mp hacquire
  obtain ⟨n, hn, rfl⟩ := Option.map_eq_some_iff.mp hm
  constructor
  · intro object' hobject'
    rw [Multiset.mem_cons, not_or] at hobject'
    rw [hold?_insert, if_neg hobject'.1, h.others object' hobject'.2]
  · intro object' hobject'
    rw [hold?_insert]
    split
    · rename_i heq
      subst heq
      use n, hn
      rw [Multiset.count_cons_self, Nat.add_assoc]
    · rename_i hne
      rw [Multiset.count_cons_of_ne hne]
      apply h.owned object' ((Multiset.mem_cons.mp hobject').resolve_left hne)

/-- The owner unlocks an object that it has locked. -/
theorem unlock (h : t.Exceeds base owner (object ::ₘ extra)) (hbase : base.IsCounted) :
  (t.unlock owner object).2.Exceeds base owner extra
  := by
  obtain ⟨n, hn, hhold⟩ := h.owned object (Multiset.mem_cons_self object extra)
  rw [Multiset.count_cons_self, ← Nat.add_assoc] at hhold
  have hunlocked : ∀ object', (t.unlock owner object).2.hold? object'
      = if object' = object then
          if n + extra.count object = 0 then none else some ⟨owner, n + extra.count object⟩
        else t.hold? object' := by
    intro object'
    rw [unlock_eq hhold]
    split
    · rw [hold?_erase]
    · rw [hold?_insert]
  constructor
  · intro object' hobject'
    rw [hunlocked]
    split
    · rename_i heq
      subst heq
      rw [Multiset.count_eq_zero_of_notMem hobject', Nat.add_zero, hbase.hold?_eq hn]
    · rename_i hne
      apply h.others
      rw [Multiset.mem_cons, not_or]
      exact ⟨hne, hobject'⟩
  · intro object' hobject'
    rw [hunlocked]
    split
    · rename_i heq
      subst heq
      have hpos := Multiset.count_pos.mpr hobject'
      rw [if_neg (by omega)]
      exact ⟨n, hn, rfl⟩
    · rename_i hne
      obtain ⟨n', hn', hhold'⟩ := h.owned object' (Multiset.mem_cons_of_mem hobject')
      rw [Multiset.count_cons_of_ne hne] at hhold'
      exact ⟨n', hn', hhold'⟩

end Exceeds

/-- An object that its owner locks and unlocks again is locked as often as before. -/
theorem IsCounted.unlock_attempt (h : t.IsCounted) (hshare : (t.share? owner object).isSome) :
  ((t.attempt owner object).2.unlock owner object).2 = t
  := by
  obtain ⟨n, hn⟩ := Option.isSome_iff_exists.mp hshare
  have hacquire : t.acquire? owner object = some (t.attempt owner object).2 := by
    rw [LockTable.attempt, acquire?_eq, hn]
    rfl
  apply (((Exceeds.refl t owner).acquire hacquire).unlock h).eq_base

end MibAgent.LockTable
