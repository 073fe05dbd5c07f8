import MibAgent.Proofs.Cuts
import Mathlib.Order.Bounds.Basic

/-!
# Subtrees in the order of OIDs

In the lexicographic order a subtree leaves nothing out: it has all OIDs from its top on that come
before the next peer of the top, and all OIDs from the top on when there is no next peer. So a scope
with two ends, or with one, is enough to describe it. Nothing comes between an OID and its first
child.
-/

namespace MibAgent

namespace Oid

/-! ### Comparing arc by arc -/

theorem not_lt_nil (x : Oid) :
  ¬ x < ⟨[]⟩
  := by
  obtain ⟨arcs⟩ := x
  cases arcs with
  | nil => apply lt_irrefl
  | cons arc rest => nofun

theorem nil_le (x : Oid) :
  ⟨[]⟩ ≤ x
  := not_lt.mp x.not_lt_nil

theorem nil_lt_cons (arc : UInt32) (rest : List UInt32) :
  (⟨[]⟩ : Oid) < ⟨arc :: rest⟩
  := List.compare_nil_cons

section

variable {a b : UInt32} {as bs : List UInt32}

theorem cons_lt_cons :
  (⟨a :: as⟩ : Oid) < ⟨b :: bs⟩ ↔ a < b ∨ a = b ∧ (⟨as⟩ : Oid) < ⟨bs⟩
  := by
  change compare (a :: as) (b :: bs) = .lt ↔ _ ∨ _ ∧ compare as bs = .lt
  rw [List.compare_cons_cons, Ordering.then_eq_lt, Std.compare_eq_lt, Std.compare_eq_iff_eq]

theorem cons_le_cons :
  (⟨a :: as⟩ : Oid) ≤ ⟨b :: bs⟩ ↔ a < b ∨ a = b ∧ (⟨as⟩ : Oid) ≤ ⟨bs⟩
  := by
  rw [le_iff_lt_or_eq, le_iff_lt_or_eq, cons_lt_cons]
  simp only [mk.injEq, List.cons.injEq]
  tauto

end

/-- The next OID is the first child. -/
theorem lt_iff_child_le {x y : Oid} :
  x < y ↔ x.child 0 ≤ y
  := by
  obtain ⟨as⟩ := x
  obtain ⟨bs⟩ := y
  rw [child]
  induction as generalizing bs with
  | nil =>
      cases bs with
      | nil => simp [← not_lt, nil_lt_cons]
      | cons b bs =>
          have hzero : 0 < b ∨ 0 = b := by grind
          simp [nil_lt_cons, cons_le_cons, nil_le, hzero]
  | cons a as ih =>
      cases bs with
      | nil => simp [not_lt_nil, ← not_lt, nil_lt_cons]
      | cons b bs => rw [List.cons_append, cons_lt_cons, cons_le_cons, ih]

/-! ### Next peers -/

theorem not_lt_of_maxArc {a : UInt32} (h : ¬ a < maxArc) (b : UInt32) :
  ¬ a < b
  := by
  rw [maxArc] at h
  grind

theorem lt_succ_iff {a b : UInt32} (h : a < maxArc) :
  b < a + 1 ↔ ¬ a < b
  := by
  rw [maxArc] at h
  grind

/-- A list of arcs begins with another one when the OIDs come in this order and before the next
peer. -/
theorem isPrefixOf_iff (as bs : List UInt32) :
  as.isPrefixOf bs
    ↔ (⟨as⟩ : Oid) ≤ ⟨bs⟩ ∧ ∀ peer, nextPeerArcs as = some peer → (⟨bs⟩ : Oid) < ⟨peer⟩
  := by
  induction as generalizing bs with
  | nil => simp [nextPeerArcs, nil_le]
  | cons a as ih =>
      cases bs with
      | nil => simp [← not_lt, nil_lt_cons]
      | cons b bs =>
          rw [List.isPrefixOf, Bool.and_eq_true, beq_iff_eq, ih, cons_le_cons, nextPeerArcs]
          cases nextPeerArcs as with
          | some peer =>
              simp only [Option.some.injEq, forall_eq', cons_lt_cons]
              constructor
              · rintro ⟨rfl, hle, hlt⟩
                exact ⟨.inr ⟨rfl, hle⟩, .inr ⟨rfl, hlt⟩⟩
              · rintro ⟨hab | ⟨rfl, hle⟩, hba | ⟨hba, hlt⟩⟩
                · apply absurd hba (UInt32.lt_asymm hab)
                · apply absurd hba.symm (UInt32.ne_of_lt hab)
                · apply absurd hba (UInt32.lt_irrefl a)
                · exact ⟨rfl, hle, hlt⟩
          | none =>
              -- the peer of the first arc alone, if there is one
              by_cases ha : a < maxArc
              · simp only [if_pos ha, Option.some.injEq, forall_eq', cons_lt_cons, not_lt_nil,
                  lt_succ_iff ha, and_false, or_false, reduceCtorEq, false_implies, implies_true,
                  and_true]
                constructor
                · rintro ⟨rfl, hle⟩
                  exact ⟨.inr ⟨rfl, hle⟩, UInt32.lt_irrefl a⟩
                · rintro ⟨hab | hsame, hnot⟩
                  · apply absurd hab hnot
                  · apply hsame
              · simp [ha, not_lt_of_maxArc ha]

/-- A subtree has the OIDs from its top on that come before the next peer. -/
theorem isBelow_iff {x top : Oid} :
  x.isBelow top ↔ top ≤ x ∧ ∀ peer, top.nextPeer? = some peer → x < peer
  := by
  rw [isBelow, isPrefixOf_iff]
  simp [nextPeer?]

variable {top peer : Oid}

/-- The next peer is the first OID after the top that is not in the subtree. -/
theorem isLeast_of_nextPeer? (h : top.nextPeer? = some peer) :
  IsLeast {x | top < x ∧ ¬ x.isBelow top} peer
  := by
  have hbelow : ∀ x : Oid, x.isBelow top ↔ top ≤ x ∧ x < peer := by
    intro x
    simp [isBelow_iff, h]
  constructor
  · constructor
    · have htop : top.isBelow top := by simp [isBelow]
      apply ((hbelow top).mp htop).2
    · rw [hbelow]
      rintro ⟨-, hlt⟩
      apply lt_irrefl peer hlt
  · rintro x ⟨hlt, hnot⟩
    rw [hbelow, not_and, not_lt] at hnot
    apply hnot hlt.le

theorem isBelow_of_nextPeer?_eq_none (h : top.nextPeer? = none) {x : Oid} (hx : top ≤ x) :
  x.isBelow top
  := by
  rw [isBelow_iff, h]
  exact ⟨hx, nofun⟩

end Oid

namespace Scope

theorem contains_subtree_iff {top x : Oid} :
  (subtree top).contains x ↔ x.isBelow top
  := by
  rw [contains_iff, Oid.isBelow_iff, subtree, start, finish, Endpoint.start, Cut.beside_lt_beside]
  cases top.nextPeer? with
  | none => simp [Cut.beside_lt_top, le_iff_lt_or_eq]
  | some peer => simp [Endpoint.finish, Cut.beside_lt_beside, le_iff_lt_or_eq]

/-- The scope of a subtree contains just the OIDs of the subtree. The next peer of its top is the
first OID after the top that is not among them, and there is none when they are all the OIDs from
the top on. -/
theorem subtree_exact (top : Oid) :
  (∀ x, (subtree top).contains x ↔ x.isBelow top)
    ∧ (∀ peer, top.nextPeer? = some peer ↔ IsLeast {x | top < x ∧ ¬ x.isBelow top} peer)
    ∧ (top.nextPeer? = none ↔ ∀ x, top ≤ x → x.isBelow top)
  := by
  refine ⟨fun x => contains_subtree_iff, ?_, ?_⟩
  · intro peer
    constructor
    · apply Oid.isLeast_of_nextPeer?
    · intro hleast
      cases hother : top.nextPeer? with
      | none =>
          obtain ⟨hlt, hnot⟩ := hleast.1
          apply absurd (Oid.isBelow_of_nextPeer?_eq_none hother hlt.le) hnot
      | some other => rw [(Oid.isLeast_of_nextPeer? hother).unique hleast]
  · constructor
    · intro hnone x
      apply Oid.isBelow_of_nextPeer?_eq_none hnone
    · intro hall
      cases hpeer : top.nextPeer? with
      | none => rfl
      | some peer =>
          obtain ⟨hlt, hnot⟩ := (Oid.isLeast_of_nextPeer? hpeer).1
          apply absurd (hall peer hlt.le) hnot

end Scope

end MibAgent
