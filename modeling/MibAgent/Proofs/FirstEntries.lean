import MibAgent.Proofs.Lookup

/-!
# First entries

The bounds that a scope hands to a map are admitted by the OIDs that the scope contains, and a map
refuses them only when the scope is empty, in which case it is not asked. So the search for the first
entry is never refused: what a map lists between the bounds is what the scope contains, and what is
met first is the entry with the least of these keys.
-/

namespace MibAgent

/-! ### Bounds -/

namespace Endpoint

theorem admitsAbove_bound (e : Endpoint) (x : Oid) :
  e.bound.admitsAbove x = e.admitsAbove x
  := by
  rw [bound, admitsAbove]
  cases hc : compare x e.oid with
  | lt | eq | gt => cases e.included <;> simp [Bound.admitsAbove, hc]

theorem admitsBelow_bound (e : Endpoint) (x : Oid) :
  e.bound.admitsBelow x = e.admitsBelow x
  := by
  rw [bound, admitsBelow]
  cases hc : compare x e.oid with
  | lt | eq | gt => cases e.included <;> simp [Bound.admitsBelow, hc]

end Endpoint

namespace Scope

variable {s : Scope}

/-- The OIDs between the bounds of a scope are those that the scope contains. -/
theorem admits_bounds (s : Scope) (x : Oid) :
  (s.bounds.1.admitsAbove x && s.bounds.2.admitsBelow x) = s.contains x
  := by
  rw [contains, bounds, Endpoint.admitsAbove_bound]
  cases s.upper with
  | none => rfl
  | some upper => rw [Option.elim_some, Endpoint.admitsBelow_bound, Option.all_some]

/-- A scope that contains an OID is not empty. -/
theorem isEmpty_of_contains {x : Oid} (h : s.contains x) :
  s.isEmpty = false
  := by
  rw [contains_iff] at h
  rw [isEmpty_eq_false_iff]
  apply (Cut.le_beside_of_lt h.1).trans_lt h.2

/-! ### Entries in a scope -/

variable {α : Type} {m : OrderedMap Oid α}

/-- Unless a scope is empty, a map lists between its bounds what the scope contains. -/
theorem range_bounds (m : OrderedMap Oid α) (h : s.isEmpty = false) :
  m.range s.bounds.1 s.bounds.2 = .ok (m.entries.filter fun e => s.contains e.1)
  := by
  rw [OrderedMap.range, fault?_bounds h]
  simp only [admits_bounds]

/-- The first entry in a scope is the first one with a key that the scope contains. -/
theorem firstEntry_eq_find? (s : Scope) (m : OrderedMap Oid α) :
  s.firstEntry m = .ok (m.entries.find? fun e => s.contains e.1)
  := by
  rw [firstEntry]
  cases hempty : s.isEmpty with
  | false => rw [if_neg Bool.false_ne_true, range_bounds m hempty, Except.map, List.head?_filter]
  | true =>
      rw [if_pos rfl, Except.ok.injEq, eq_comm, List.find?_eq_none]
      intro e _ hcontains
      rw [isEmpty_of_contains hcontains] at hempty
      cases hempty

theorem firstEntry?_eq_find? (s : Scope) (m : OrderedMap Oid α) :
  s.firstEntry? m = m.entries.find? fun e => s.contains e.1
  := by
  rw [← Except.ok.injEq (ε := RangeFault), ← firstEntry_eq_ok, firstEntry_eq_find?]

theorem firstEntry?_eq_some_iff {x : Oid} {v : α} :
  s.firstEntry? m = some (x, v) ↔
    m.get? x = some v ∧ s.contains x ∧ ∀ y w, m.get? y = some w → s.contains y → x ≤ y
  := by
  have hascending : m.entries.Pairwise fun i j => i.1 < j.1 := by
    apply m.ascending.imp
    intro i j hij
    rwa [compare_lt_iff_lt] at hij
  rw [firstEntry?_eq_find?, find?_eq_some_iff_least hascending, OrderedMap.mem_entries_iff]
  apply and_congr_right
  intro hx
  apply and_congr_right
  intro _
  constructor
  · intro h y w hy hcontains
    rcases h (y, w) (OrderedMap.mem_entries_iff.mpr hy) hcontains with heq | hlt
    · cases heq
      rfl
    · apply hlt.le
  · rintro h ⟨y, w⟩ hy hcontains
    rw [OrderedMap.mem_entries_iff] at hy
    rcases (h y w hy hcontains).eq_or_lt with rfl | hlt
    · left
      rw [hx] at hy
      cases hy
      rfl
    · right
      apply hlt

theorem firstEntry?_eq_none_iff :
  s.firstEntry? m = none ↔ ∀ y w, m.get? y = some w → s.contains y = false
  := by
  rw [firstEntry?_eq_find?, List.find?_eq_none]
  constructor
  · intro h y w hy
    rw [← Bool.not_eq_true]
    apply h (y, w) (OrderedMap.mem_entries_iff.mpr hy)
  · rintro h ⟨y, w⟩ hy
    rw [h y w (OrderedMap.mem_entries_iff.mp hy)]
    exact Bool.false_ne_true

/-- For every scope, also an empty one, and every map the search for the first entry in the scope is
never refused. It finds the entry with the least key that the scope contains, and nothing exactly if
the scope contains no key. Between the bounds of a scope that is not empty, the map lists what the
scope contains. -/
theorem first_entry_spec (s : Scope) (m : OrderedMap Oid α) :
  (∀ fault, s.firstEntry m ≠ .error fault)
    ∧ (∀ x v, s.firstEntry m = .ok (some (x, v)) ↔
        m.get? x = some v ∧ s.contains x ∧ ∀ y w, m.get? y = some w → s.contains y → x ≤ y)
    ∧ (s.firstEntry m = .ok none ↔ ∀ y w, m.get? y = some w → s.contains y = false)
    ∧ (s.isEmpty = false →
        m.range s.bounds.1 s.bounds.2 = .ok (m.entries.filter fun e => s.contains e.1))
  := by
  refine ⟨s.firstEntry_ne_error m, ?_, ?_, range_bounds m⟩
  · intro x v
    rw [firstEntry_eq_ok, Except.ok.injEq, firstEntry?_eq_some_iff]
  · rw [firstEntry_eq_ok, Except.ok.injEq, firstEntry?_eq_none_iff]

/-- A map with the keys 1.1, 1.2 and 1.3. It lists the last two after 1.1. It refuses the bounds of
the empty scope that excludes 1.2 on both sides, and those of one that ends before it begins, but the
search in these scopes is not refused. -/
theorem three_first_entry :
  let m : OrderedMap Oid Nat := .ofList [(⟨[1, 1]⟩, 1), (⟨[1, 2]⟩, 2), (⟨[1, 3]⟩, 3)]
  let s := between ⟨[1, 1]⟩ false (some ⟨[1, 3]⟩) true
  let t := between ⟨[1, 2]⟩ false (some ⟨[1, 2]⟩) false
  let u := between ⟨[1, 3]⟩ true (some ⟨[1, 1]⟩) true
  s.isEmpty = false ∧ m.range s.bounds.1 s.bounds.2 = .ok [(⟨[1, 2]⟩, 2), (⟨[1, 3]⟩, 3)]
    ∧ s.firstEntry m = .ok (some (⟨[1, 2]⟩, 2))
    ∧ m.range t.bounds.1 t.bounds.2 = .error .hollow ∧ t.firstEntry m = .ok none
    ∧ m.range u.bounds.1 u.bounds.2 = .error .descending ∧ u.firstEntry m = .ok none
  := by
  intro m s t u
  obtain ⟨-, -, -, hrange⟩ := first_entry_spec s m
  obtain ⟨-, -, hnone, -⟩ := first_entry_spec t m
  have hs : s.isEmpty = false := by decide
  refine ⟨hs, (hrange hs).trans rfl, rfl, rfl, hnone.mpr ?_, rfl, rfl⟩
  intro y w _
  rw [← Bool.not_eq_true]
  intro hy
  apply absurd (isEmpty_of_contains hy)
  decide

end Scope

end MibAgent
