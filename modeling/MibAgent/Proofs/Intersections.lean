import MibAgent.Proofs.Cuts

/-!
# Intersections

A scope is determined by the cuts between which it lies. Between the narrower ends of two scopes lie
the OIDs that both contain, and that scope is their intersection unless it is empty. So intersecting
is commutative and associative, where an empty intersection makes every further one empty, and the
intersection is the greatest scope that both scopes cover.
-/

namespace MibAgent

theorem Cut.beside_inj {x y : Oid} {a b : Bool} :
  beside x a = beside y b ↔ x = y ∧ a = b
  := by
  rw [beside, beside, WithTop.coe_inj, toLex_inj, Prod.mk.injEq]

namespace Scope

/-- A scope is determined by where it starts and finishes. -/
theorem ext_cuts {a b : Scope} (hstart : a.start = b.start) (hfinish : a.finish = b.finish) :
  a = b
  := by
  obtain ⟨⟨x, included⟩, upper⟩ := a
  obtain ⟨⟨y, included'⟩, upper'⟩ := b
  obtain ⟨rfl, hincluded⟩ := Cut.beside_inj.mp hstart
  cases Bool.not_inj hincluded
  cases upper with
  | none =>
      cases upper' with
      | none => rfl
      | some e => apply absurd hfinish.symm WithTop.coe_ne_top
  | some d =>
      cases upper' with
      | none => apply absurd hfinish WithTop.coe_ne_top
      | some e =>
          obtain ⟨hoid, hincluded⟩ := Cut.beside_inj.mp hfinish
          cases d
          cases e
          cases hoid
          cases hincluded
          rfl

variable {a b c m : Scope}

theorem common_comm (a b : Scope) :
  a.common b = b.common a
  := by
  apply ext_cuts
  · rw [start_common, start_common, max_comm]
  · rw [finish_common, finish_common, min_comm]

theorem common_assoc (a b c : Scope) :
  (a.common b).common c = a.common (b.common c)
  := by
  apply ext_cuts
  · rw [start_common, start_common, start_common, start_common, max_assoc]
  · rw [finish_common, finish_common, finish_common, finish_common, min_assoc]

theorem contains_common {x : Oid} :
  (a.common b).contains x ↔ a.contains x ∧ b.contains x
  := by
  rw [contains_iff, contains_iff, contains_iff, start_common, finish_common, max_lt_iff, lt_min_iff]
  tauto

theorem isEmpty_iff :
  a.isEmpty ↔ a.finish ≤ a.start
  := by
  rw [← not_lt, ← isEmpty_eq_false_iff, Bool.not_eq_false]

/-- A scope has no room in common with an empty one. -/
theorem isEmpty_common (h : a.isEmpty) (b : Scope) :
  (a.common b).isEmpty
  := by
  rw [isEmpty_iff, start_common, finish_common]
  calc
    min a.finish b.finish ≤ a.finish := min_le_left _ _
    _ ≤ a.start := isEmpty_iff.mp h
    _ ≤ max a.start b.start := le_max_left _ _

/-! ### What the intersection is -/

theorem intersection?_eq_some_iff :
  a.intersection? b = some m ↔ (a.common b).isEmpty = false ∧ a.common b = m
  := by
  rw [intersection?_eq]
  cases (a.common b).isEmpty with
  | false => simp
  | true => simp

theorem intersection?_comm (a b : Scope) :
  a.intersection? b = b.intersection? a
  := by
  rw [intersection?_eq, intersection?_eq, common_comm]

/-- Intersecting with a third scope leaves what lies between the narrowest ends of all three. -/
theorem intersection?_bind (a b c : Scope) :
  (a.intersection? b).bind (·.intersection? c)
    = if ((a.common b).common c).isEmpty then none else some ((a.common b).common c)
  := by
  rw [intersection?_eq]
  cases hempty : (a.common b).isEmpty with
  | false => rfl
  | true =>
      rw [isEmpty_common hempty c]
      rfl

theorem intersection?_assoc (a b c : Scope) :
  (a.intersection? b).bind (·.intersection? c) = (b.intersection? c).bind (a.intersection? ·)
  := by
  calc
    _ = if ((a.common b).common c).isEmpty then none else some ((a.common b).common c) :=
      intersection?_bind a b c
    _ = if ((b.common c).common a).isEmpty then none else some ((b.common c).common a) := by
      rw [common_assoc, common_comm a]
    _ = (b.intersection? c).bind (·.intersection? a) := (intersection?_bind b c a).symm
    _ = (b.intersection? c).bind (a.intersection? ·) := by
      congr 1
      funext d
      apply intersection?_comm

theorem covers_iff :
  a.covers b ↔ a.intersection? b = some b
  := beq_iff_eq

/-- A scope covers its intersections. -/
theorem covers_of_intersection? (h : a.intersection? b = some m) :
  a.covers m
  := by
  obtain ⟨hroom, rfl⟩ := intersection?_eq_some_iff.mp h
  have hself : a.common (a.common b) = a.common b := by
    rw [← common_assoc]
    congr 1
    apply ext_cuts
    · rw [start_common, max_self]
    · rw [finish_common, min_self]
  rw [covers_iff, intersection?_eq_some_iff, hself]
  exact ⟨hroom, rfl⟩

/-- What two scopes cover is covered by their intersection. -/
theorem exists_intersection?_covers (ha : a.covers c) (hb : b.covers c) :
  ∃ m, a.intersection? b = some m ∧ m.covers c
  := by
  rw [covers_iff] at ha hb
  have hassoc := intersection?_assoc a b c
  rw [hb, Option.bind_some, ha] at hassoc
  obtain ⟨m, hm, hc⟩ := Option.bind_eq_some_iff.mp hassoc
  exact ⟨m, hm, covers_iff.mpr hc⟩

/-- The intersection of two scopes contains the OIDs that both contain, and it is the greatest scope
that both cover; without an intersection they have no OID in common. It is commutative and
associative. -/
theorem intersection_meets (a b c : Scope) :
  (∀ m, a.intersection? b = some m →
      (∀ x, m.contains x ↔ a.contains x ∧ b.contains x) ∧ a.covers m ∧ b.covers m)
    ∧ (a.intersection? b = none → ∀ x, ¬ (a.contains x ∧ b.contains x))
    ∧ (a.covers c → b.covers c → ∃ m, a.intersection? b = some m ∧ m.covers c)
    ∧ a.intersection? b = b.intersection? a
    ∧ (a.intersection? b).bind (·.intersection? c) = (b.intersection? c).bind (a.intersection? ·)
  := by
  refine ⟨?_, ?_, exists_intersection?_covers, intersection?_comm a b, intersection?_assoc a b c⟩
  · intro m hm
    refine ⟨?_, covers_of_intersection? hm, ?_⟩
    · intro x
      rw [← (intersection?_eq_some_iff.mp hm).2, contains_common]
    · rw [intersection?_comm] at hm
      apply covers_of_intersection? hm
  · rintro hnone x ⟨ha, hb⟩
    have hoverlaps := overlaps_of_contains ha hb
    rw [overlaps, hnone] at hoverlaps
    cases hoverlaps

/-- A subtree and the OIDs after one in it meet in the rest of the subtree, which covers what both
cover. The subtree does not meet its next peer. -/
theorem subtree_meets_after :
  let a := subtree ⟨[1, 3]⟩
  let b := after ⟨[1, 3, 5]⟩
  let m := between ⟨[1, 3, 5]⟩ false (some ⟨[1, 4]⟩) false
  let c := subtree ⟨[1, 3, 6]⟩
  (a.intersection? b = some m
      ∧ (∀ x, m.contains x ↔ a.contains x ∧ b.contains x) ∧ a.covers m ∧ b.covers m)
    ∧ (a.covers c ∧ b.covers c ∧ m.covers c)
    ∧ a.intersection? (subtree ⟨[1, 4]⟩) = none
    ∧ ∀ x, ¬ (a.contains x ∧ (subtree ⟨[1, 4]⟩).contains x)
  := by
  intro a b m c
  obtain ⟨hmeet, -, hgreatest, -⟩ := intersection_meets a b c
  obtain ⟨-, hapart, -⟩ := intersection_meets a (subtree ⟨[1, 4]⟩) c
  have hm : a.intersection? b = some m := by decide
  have ha : a.covers c := by decide
  have hb : b.covers c := by decide
  have hnone : a.intersection? (subtree ⟨[1, 4]⟩) = none := by decide
  obtain ⟨other, hother, hcovers⟩ := hgreatest ha hb
  cases hother.symm.trans hm
  exact ⟨⟨hm, hmeet m hm⟩, ⟨ha, hb, hcovers⟩, hnone, hapart hnone⟩

end Scope

end MibAgent
