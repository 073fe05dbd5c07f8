import MibAgent.Proofs.Conflicts
import MibAgent.Proofs.Intersections
import MibAgent.Proofs.Shelves
import MibAgent.Proofs.Subtrees

/-!
# Gaps

Whether a scope is empty and whether two scopes overlap is decided by their ends. That agrees with
the OIDs that they contain, except for gaps: the scope from an OID to its first child that includes
neither of them has no OIDs, but does not count as empty. So scopes overlap when there is an OID in
both, and when a gap is all that they have in common, and a registration may be refused for a gap.
-/

namespace MibAgent

/-- No cut lies between the one just after an OID and the one just before its first child. -/
theorem Cut.beside_child_le {x : Oid} {c : Cut} (h : beside x true < c) :
  beside (x.child 0) false ≤ c
  := by
  induction c using WithTop.recTopCoe with
  | top => apply le_top
  | coe c =>
      obtain ⟨y, after⟩ := c
      rcases beside_lt_beside.mp h with hlt | ⟨-, hafter⟩
      · rcases (Oid.lt_iff_child_le.mp hlt).lt_or_eq with hchild | rfl
        · apply beside_le_of_lt hchild
        · apply beside_mono _ (Bool.false_le after)
      · cases (Bool.lt_iff.mp hafter).1

namespace Scope

/-- The scope from an OID to its first child that includes neither of them. -/
def gap (x : Oid) : Scope := ⟨⟨x, false⟩, some ⟨x.child 0, false⟩⟩

theorem start_gap (x : Oid) :
  (gap x).start = .beside x true
  := rfl

theorem finish_gap (x : Oid) :
  (gap x).finish = .beside (x.child 0) false
  := rfl

theorem isEmpty_gap (x : Oid) :
  (gap x).isEmpty = false
  := by
  rw [isEmpty_eq_false_iff, start_gap, finish_gap, Cut.beside_lt_beside]
  left
  rw [Oid.lt_iff_child_le]

theorem not_contains_gap (x y : Oid) :
  ¬ (gap x).contains y
  := by
  rw [contains_iff, start_gap, finish_gap, Cut.beside_lt_beside, Cut.beside_lt_beside]
  simp only [lt_self_iff_false, and_false, or_false]
  rintro ⟨hafter, hbefore⟩
  apply hbefore.not_ge (Oid.lt_iff_child_le.mp hafter)

variable {a b : Scope}

/-- There is an OID in a scope with room, unless it is a gap. -/
theorem exists_contains_or_gap (h : a.isEmpty = false) :
  (∃ x, a.contains x) ∨ ∃ x, a = gap x
  := by
  rw [isEmpty_eq_false_iff] at h
  obtain ⟨⟨x, included⟩, upper⟩ := a
  cases included with
  | true =>
      left
      use x
      rw [contains_iff]
      exact ⟨Cut.beside_lt_beside_self, h⟩
  | false =>
      have hnext := Cut.beside_child_le h
      rcases hnext.lt_or_eq with hlt | heq
      · left
        use x.child 0
        rw [contains_iff]
        refine ⟨?_, hlt⟩
        apply Cut.beside_lt_beside.mpr
        left
        rw [Oid.lt_iff_child_le]
      · right
        use x
        apply ext_cuts
        · rfl
        · exact heq.symm

/-- A scope is empty when there is no OID in it and it is not a gap. -/
theorem isEmpty_iff_not_contains :
  a.isEmpty ↔ (∀ x, ¬ a.contains x) ∧ ∀ x, a ≠ gap x
  := by
  constructor
  · intro hempty
    constructor
    · intro x hx
      rw [isEmpty_of_contains hx] at hempty
      cases hempty
    · rintro x rfl
      rw [isEmpty_gap] at hempty
      cases hempty
  · rintro ⟨hnone, hgap⟩
    by_contra hroom
    rw [Bool.not_eq_true] at hroom
    rcases exists_contains_or_gap hroom with ⟨x, hx⟩ | ⟨x, hx⟩
    · apply hnone x hx
    · apply hgap x hx

/-- Scopes overlap when there is an OID in both, or a gap is all that they have in common. -/
theorem overlaps_iff_contains :
  a.overlaps b ↔ (∃ x, a.contains x ∧ b.contains x) ∨ ∃ x, a.intersection? b = some (gap x)
  := by
  constructor
  · intro hoverlaps
    obtain ⟨m, hm⟩ := Option.isSome_iff_exists.mp hoverlaps
    obtain ⟨hroom, hcommon⟩ := intersection?_eq_some_iff.mp hm
    rcases exists_contains_or_gap hroom with ⟨x, hx⟩ | ⟨x, hx⟩
    · left
      exact ⟨x, contains_common.mp hx⟩
    · right
      use x
      rw [hm, ← hcommon, hx]
  · rintro (⟨x, ha, hb⟩ | ⟨x, hx⟩)
    · apply overlaps_of_contains ha hb
    · rw [overlaps, hx]
      rfl

/-- An empty scope overlaps none. -/
theorem isEmpty_of_overlaps (h : a.overlaps b) :
  b.isEmpty = false
  := by
  rw [isEmpty_eq_false_iff]
  apply (overlaps_iff_lt.mp h).2.2

end Scope

/-! ### Refused registrations -/

namespace Store.IsOrderly

variable {s : Store} (h : s.IsOrderly)
include h

/-- A registration is refused as a duplicate when one that it excludes is there. -/
theorem register_duplicates_iff {e : Entry} :
  (∃ existing, s.register e = .error (.duplicateRegistration e.scope existing))
    ↔ ∃ d ∈ s.entries, e.scope.excludes d.scope
  := by
  rw [h.register_eq]
  split
  · rename_i hempty
    simp only [Except.error.injEq, reduceCtorEq, exists_false, false_iff, not_exists, not_and]
    intro d _ hexcludes
    rw [ContextScope.excludes, Bool.and_eq_true] at hexcludes
    rw [Scope.isEmpty_of_overlaps hexcludes.2] at hempty
    cases hempty
  · split
    · rename_i d hd
      have hexcludes := List.find?_some hd
      exact iff_of_true ⟨_, rfl⟩ ⟨d, List.mem_of_find?_eq_some hd, hexcludes⟩
    · rename_i hnone
      simp only [reduceCtorEq, exists_false, false_iff, not_exists, not_and]
      apply List.find?_eq_none.mp hnone

end Store.IsOrderly

namespace Agent

variable {σ : Type}

/-- The agent refuses to register an object when the store of registrations does. -/
theorem register_eq_error_iff {a : Agent σ} {s t : AgentState σ} {object : ObjectId} {scope : Scope}
    (hscope : (a.object object).scope.run s = (scope, t)) (name : Option Octets)
    (failure : Failure) :
  ((a.register object name).run s).1 = .error failure
    ↔ t.registry.store.register ⟨.inContext name scope, object⟩ = .error failure
  := by
  have hrun := congrArg Prod.fst (run_register hscope name)
  rw [hrun]
  split
  · rename_i hrefused
    rw [hrefused]
    simp
  · rename_i hregistered
    rw [hregistered]
    simp

/-- A scope is empty when there is no OID in it, unless it is a gap. Two scopes overlap when there
is an OID in both, or else when they have a gap in common. So the agent refuses to register an
object as a duplicate when in a context that matters there is a registration for one of the OIDs
that the object declares, or one that has a gap in common with it. -/
theorem overlap_up_to_gaps (a : Agent σ) :
  (∀ r : Scope, r.isEmpty ↔ (∀ x, ¬ r.contains x) ∧ ∀ x, r ≠ .gap x)
    ∧ (∀ r q : Scope, r.overlaps q
        ↔ (∃ x, r.contains x ∧ q.contains x) ∨ ∃ x, r.intersection? q = some (.gap x))
    ∧ ∀ s t object scope, (a.object object).scope.run s = (scope, t) → t.IsReachable → ∀ name,
        let declared := ContextScope.inContext name scope
        (∃ existing, ((a.register object name).run s).1
            = .error (.duplicateRegistration declared existing))
          ↔ ∃ e ∈ t.registry.store.entries,
            (declared.context = none ∨ e.scope.context = declared.context)
            ∧ ((∃ x, e.scope.scope.contains x ∧ scope.contains x)
              ∨ ∃ x, e.scope.scope.intersection? scope = some (.gap x))
  := by
  refine ⟨fun r => Scope.isEmpty_iff_not_contains, fun r q => Scope.overlaps_iff_contains, ?_⟩
  intro s t object scope hscope ht name declared
  simp only [register_eq_error_iff hscope]
  rw [ht.isOrderly.register_duplicates_iff (e := ⟨declared, object⟩)]
  apply exists_congr
  intro e
  apply and_congr_right
  intro _
  rw [ContextScope.excludes, Bool.and_eq_true, Bool.or_eq_true, beq_iff_eq, beq_iff_eq,
    Scope.overlaps_iff_contains]
  rfl

end Agent

namespace Shelves

/-- Shelves that meet between an OID and its first child: the first one serves the OID, and the
others serve the child. -/
def abutting (number : ObjectId) : Shelf where
  scope :=
    if number = 1 then .between ⟨[1, 3]⟩ true (some ⟨[1, 3, 0]⟩) false
    else .between ⟨[1, 3]⟩ false (some ⟨[1, 3, 0]⟩) true
  instances := .empty

theorem abutting_intersection :
  (abutting 1).scope.intersection? (abutting 2).scope = some (.gap ⟨[1, 3]⟩)
  := by decide

/-- The second shelf is refused for the gap that it has in common with the first one. -/
theorem abutting_refused_for_gap :
  let a := agent abutting fun _ => true
  let s := stocked [placed abutting none 1]
  (a.object 2).scope.run s = ((abutting 2).scope, s) ∧ s.IsReachable
    ∧ ∃ existing, ((a.register 2 none).run s).1
        = .error (.duplicateRegistration ⟨none, (abutting 2).scope⟩ existing)
  := by
  intro a s
  have hreachable : s.IsReachable := isReachable_stocked _
  obtain ⟨-, -, hrefused⟩ := Agent.overlap_up_to_gaps a
  refine ⟨rfl, hreachable, (hrefused s s 2 _ rfl hreachable none).mpr ?_⟩
  use ⟨⟨none, (abutting 1).scope⟩, 1⟩
  refine ⟨?_, .inl rfl, .inr ⟨_, abutting_intersection⟩⟩
  decide +kernel

/-- A gap has no OIDs, but it is not empty. The two shelves have no OID in common, but they overlap,
so the second one is refused, although no registration serves any OID that it declares. -/
theorem abutting_apart :
  let a := agent abutting fun _ => true
  let s := stocked [placed abutting none 1]
  let one := (abutting 1).scope
  let other := (abutting 2).scope
  ((∀ x, ¬ (Scope.gap ⟨[1, 3]⟩).contains x) ∧ (Scope.gap ⟨[1, 3]⟩).isEmpty = false)
    ∧ ((∀ x, ¬ (one.contains x ∧ other.contains x)) ∧ one.overlaps other)
    ∧ s.IsReachable
    ∧ (∀ e ∈ s.registry.store.entries, ∀ x, ¬ (e.scope.scope.contains x ∧ other.contains x))
    ∧ ((a.register 2 none).run s).1
      = .error (.duplicateRegistration ⟨none, other⟩ ⟨none, one⟩)
  := by
  intro a s one other
  have hapart : ∀ x, ¬ (one.contains x ∧ other.contains x) := by
    intro x hx
    obtain ⟨-, hcommon⟩ := Scope.intersection?_eq_some_iff.mp abutting_intersection
    apply Scope.not_contains_gap ⟨[1, 3]⟩ x
    rw [← hcommon, Scope.contains_common]
    apply hx
  refine ⟨⟨Scope.not_contains_gap _, Scope.isEmpty_gap _⟩, ⟨hapart, by decide⟩,
    isReachable_stocked _, ?_, by decide +kernel⟩
  have hentries : s.registry.store.entries = [⟨⟨none, one⟩, 1⟩] := by decide +kernel
  rw [hentries]
  simpa using hapart

end Shelves

end MibAgent
