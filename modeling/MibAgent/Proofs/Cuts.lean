import MibAgent.Registry.Partition
import Mathlib.Data.Prod.Lex
import Mathlib.Order.Compare
import Mathlib.Order.MinMax
import Mathlib.Order.Std
import Mathlib.Order.WithBot

/-!
# Cuts

A cut stands just before an OID or just after one, or behind all OIDs. A scope lies between two
cuts, and cuts are ordered linearly. So what is asked of scopes end by end, with a case for each
way in which the ends include their OIDs or are missing, comes down to comparing cuts.
-/

namespace MibAgent

instance : LinearOrder Oid := .ofStd Oid

/-- A place just before an OID or just after one, or behind all OIDs. -/
abbrev Cut := WithTop (Oid ×ₗ Bool)

namespace Cut

/-- The cut just before an OID, or just after it. -/
def beside (x : Oid) (after : Bool) : Cut := ↑(toLex (x, after))

variable {x y : Oid} {a b : Bool}

theorem beside_lt_beside :
  beside x a < beside y b ↔ x < y ∨ x = y ∧ a < b
  := by
  rw [beside, beside, WithTop.coe_lt_coe, Prod.Lex.toLex_lt_toLex]

theorem beside_le_of_lt (h : x < y) :
  beside x a ≤ beside y b
  := by
  apply le_of_lt
  rw [beside_lt_beside]
  left
  apply h

theorem beside_mono (x : Oid) :
  Monotone (beside x)
  := by
  intro a b h
  rw [← not_lt, beside_lt_beside]
  rintro (hx | ⟨-, hlt⟩)
  · apply lt_irrefl x hx
  · apply not_lt_of_ge h hlt

/-- There is no cut between the two beside an OID. -/
theorem le_beside_of_lt {c : Cut} (h : c < beside x true) :
  c ≤ beside x false
  := by
  induction c using WithTop.recTopCoe with
  | top => apply absurd h not_top_lt
  | coe c =>
      obtain ⟨y, b⟩ := c
      rcases beside_lt_beside.mp h with hy | ⟨rfl, hb⟩
      · apply beside_le_of_lt hy
      · rw [(Bool.lt_iff.mp hb).1]
        rfl

theorem beside_lt_beside_self :
  beside x false < beside x true
  := beside_lt_beside.mpr (.inr ⟨rfl, Bool.false_lt_true⟩)

theorem beside_lt_top :
  beside x a < ⊤
  := WithTop.coe_lt_top _

end Cut

/-! ### Ends -/

namespace Endpoint

/-- The cut where a scope with this lower end starts. -/
def start (e : Endpoint) : Cut := .beside e.oid !e.included

/-- The cut where a scope with this upper end finishes. -/
def finish (e : Endpoint) : Cut := .beside e.oid e.included

theorem start_tightenLower (a b : Endpoint) :
  (a.tightenLower b).start = max a.start b.start
  := by
  rw [tightenLower]
  cases hc : compare a.oid b.oid with
  | lt =>
      rw [compare_lt_iff_lt] at hc
      rw [max_eq_right]
      apply Cut.beside_le_of_lt hc
  | eq =>
      rw [compare_eq_iff_eq] at hc
      rw [start, start, start, ← hc, ← (Cut.beside_mono a.oid).map_max, Bool.not_and]
      rfl
  | gt =>
      rw [compare_gt_iff_gt] at hc
      rw [max_eq_left]
      apply Cut.beside_le_of_lt hc

theorem finish_tightenUpper (a b : Endpoint) :
  (a.tightenUpper b).finish = min a.finish b.finish
  := by
  rw [tightenUpper]
  cases hc : compare a.oid b.oid with
  | lt =>
      rw [compare_lt_iff_lt] at hc
      rw [min_eq_left]
      apply Cut.beside_le_of_lt hc
  | eq =>
      rw [compare_eq_iff_eq] at hc
      rw [finish, finish, finish, ← hc, ← (Cut.beside_mono a.oid).map_min]
      rfl
  | gt =>
      rw [compare_gt_iff_gt] at hc
      rw [min_eq_right]
      apply Cut.beside_le_of_lt hc

theorem start_lt_finish_iff (lower upper : Endpoint) :
  lower.start < upper.finish
    ↔ lower.oid < upper.oid ∨ lower.oid = upper.oid ∧ lower.included ∧ upper.included
  := by
  rw [start, finish, Cut.beside_lt_beside]
  cases lower.included with
  | false => simp
  | true => simp [Bool.lt_iff]

theorem admitsAbove_iff {e : Endpoint} {x : Oid} :
  e.admitsAbove x ↔ e.start < .beside x true
  := by
  have hmeet := start_lt_finish_iff e ⟨x, true⟩
  apply Iff.trans _ hmeet.symm
  rw [admitsAbove]
  cases hc : compare x e.oid with
  | lt =>
      rw [compare_lt_iff_lt] at hc
      simp [hc.not_gt, hc.ne']
  | eq =>
      rw [compare_eq_iff_eq] at hc
      simp [hc]
  | gt =>
      rw [compare_gt_iff_gt] at hc
      simp [hc]

theorem admitsBelow_iff {e : Endpoint} {x : Oid} :
  e.admitsBelow x ↔ .beside x false < e.finish
  := by
  have hmeet := start_lt_finish_iff ⟨x, true⟩ e
  apply Iff.trans _ hmeet.symm
  rw [admitsBelow]
  cases hc : compare x e.oid with
  | lt =>
      rw [compare_lt_iff_lt] at hc
      simp [hc]
  | eq =>
      rw [compare_eq_iff_eq] at hc
      simp [hc]
  | gt =>
      rw [compare_gt_iff_gt] at hc
      simp [hc.not_gt, hc.ne']

end Endpoint

/-! ### Scopes -/

namespace Scope

/-- The cut where the scope starts. -/
def start (s : Scope) : Cut := s.lower.start

/-- The cut where the scope finishes. -/
def finish (s : Scope) : Cut := s.upper.elim ⊤ (·.finish)

theorem isEmpty_eq_false_iff {s : Scope} :
  s.isEmpty = false ↔ s.start < s.finish
  := by
  rw [isEmpty, start, finish]
  cases s.upper with
  | none => simp [Endpoint.start, Cut.beside_lt_top]
  | some upper =>
      rw [Option.elim_some, Endpoint.start_lt_finish_iff]
      dsimp only
      cases hc : compare s.lower.oid upper.oid with
      | lt =>
          rw [compare_lt_iff_lt] at hc
          simp [hc]
      | eq =>
          rw [compare_eq_iff_eq] at hc
          simp [hc]
      | gt =>
          rw [compare_gt_iff_gt] at hc
          simp [hc.not_gt, hc.ne']

/-- A scope starts after the end of a window when there is no room between the start of the one
and the end of the other. -/
theorem startsAfter_eq (s window : Scope) :
  s.startsAfter window = isEmpty ⟨s.lower, window.upper⟩
  := by
  rw [startsAfter, isEmpty]
  cases window.upper with
  | none => rfl
  | some upper =>
      dsimp only
      cases compare s.lower.oid upper.oid <;> rfl

theorem startsAfter_iff {s window : Scope} :
  s.startsAfter window ↔ window.finish ≤ s.start
  := by
  have hroom := isEmpty_eq_false_iff (s := ⟨s.lower, window.upper⟩)
  rw [startsAfter_eq, ← not_lt, start, finish, ← Bool.not_eq_false, hroom]
  rfl

theorem contains_iff {s : Scope} {x : Oid} :
  s.contains x ↔ s.start < .beside x true ∧ .beside x false < s.finish
  := by
  rw [contains, Bool.and_eq_true, Endpoint.admitsAbove_iff, start, finish]
  cases s.upper with
  | none => simp [Cut.beside_lt_top]
  | some upper => simp [Endpoint.admitsBelow_iff]

theorem finish_tightenUpper? (a b : Option Endpoint) :
  (tightenUpper? a b).elim ⊤ (·.finish) = min (a.elim ⊤ (·.finish)) (b.elim ⊤ (·.finish))
  := by
  cases a with
  | none => simp [tightenUpper?]
  | some a =>
      cases b with
      | none => simp [tightenUpper?]
      | some b => simp [tightenUpper?, Endpoint.finish_tightenUpper]

/-- The scope between the narrower ends of two scopes. -/
def common (a b : Scope) : Scope :=
  ⟨a.lower.tightenLower b.lower, tightenUpper? a.upper b.upper⟩

theorem start_common (a b : Scope) :
  (a.common b).start = max a.start b.start
  := Endpoint.start_tightenLower _ _

theorem finish_common (a b : Scope) :
  (a.common b).finish = min a.finish b.finish
  := finish_tightenUpper? _ _

theorem intersection?_eq (a b : Scope) :
  a.intersection? b = if (a.common b).isEmpty then none else some (a.common b)
  := rfl

/-- Scopes overlap when both start before either finishes. -/
theorem overlaps_iff {a b : Scope} :
  a.overlaps b ↔ max a.start b.start < min a.finish b.finish
  := by
  rw [← start_common, ← finish_common, ← isEmpty_eq_false_iff, overlaps, intersection?_eq]
  cases (a.common b).isEmpty with
  | false => simp
  | true => simp

/-- Scopes overlap when neither finishes before the other starts, and both have room. -/
theorem overlaps_iff_lt {a b : Scope} :
  a.overlaps b
    ↔ (a.start < a.finish ∧ a.start < b.finish) ∧ b.start < a.finish ∧ b.start < b.finish
  := by
  rw [overlaps_iff, max_lt_iff, lt_min_iff, lt_min_iff]

theorem overlaps_comm (a b : Scope) :
  a.overlaps b = b.overlaps a
  := by
  rw [Bool.eq_iff_iff, overlaps_iff, overlaps_iff, max_comm, min_comm]

/-- A scope that finishes before another one starts does not overlap it. -/
theorem overlaps_eq_false {a b : Scope} (h : a.finish ≤ b.start) :
  a.overlaps b = false
  := by
  rw [← Bool.not_eq_true, overlaps_iff_lt]
  rintro ⟨-, hmeet, -⟩
  apply hmeet.not_ge h

/-- Scopes that contain the same OID overlap. -/
theorem overlaps_of_contains {a b : Scope} {x : Oid} (ha : a.contains x) (hb : b.contains x) :
  a.overlaps b
  := by
  rw [contains_iff] at ha hb
  rw [overlaps_iff]
  apply (max_le (Cut.le_beside_of_lt ha.1) (Cut.le_beside_of_lt hb.1)).trans_lt
  apply lt_min ha.2 hb.2

/-- Of two scopes that have room and do not overlap, one finishes before the other starts. -/
theorem finish_le_start_or {a b : Scope} (ha : a.start < a.finish) (hb : b.start < b.finish)
    (h : a.overlaps b = false) :
  a.finish ≤ b.start ∨ b.finish ≤ a.start
  := by
  rw [← Bool.not_eq_true, overlaps_iff_lt] at h
  by_contra hmeet
  rw [not_or, not_le, not_le] at hmeet
  exact h ⟨⟨ha, hmeet.2⟩, hmeet.1, hb⟩

/-- What is left of a scope starts where the scope starts, and finishes no later. -/
theorem subtract_spec {a b rest : Scope} (ha : a.start < a.finish)
    (h : a.subtract b = .ok rest) :
  rest.start = a.start ∧ rest.start < rest.finish ∧ rest.finish ≤ a.finish
  := by
  rw [subtract] at h
  split at h
  · cases h
    exact ⟨rfl, ha, le_rfl⟩
  · rename_i hoverlaps
    split at h
    · cases h
    · split at h
      · cases h
      · dsimp only at h
        split at h
        · cases h
        · rename_i hempty
          cases h
          refine ⟨rfl, isEmpty_eq_false_iff.mp (by simpa using hempty), ?_⟩
          obtain ⟨-, hmeet, -⟩ := overlaps_iff_lt.mp (by simpa using hoverlaps)
          -- the rest finishes where the other scope starts
          apply le_of_lt hmeet

/-- An OID lies in a scope when the scope of the OID alone overlaps it. -/
theorem contains_iff_overlaps {s : Scope} {x : Oid} :
  s.contains x ↔ s.overlaps (exact x)
  := by
  rw [contains_iff, overlaps_iff_lt]
  change _ ↔ (_ ∧ s.start < .beside x true)
    ∧ Cut.beside x false < s.finish ∧ Cut.beside x false < .beside x true
  constructor
  · rintro ⟨hstart, hfinish⟩
    have hroom := (Cut.le_beside_of_lt hstart).trans_lt hfinish
    exact ⟨⟨hroom, hstart⟩, hfinish, Cut.beside_lt_beside_self⟩
  · rintro ⟨⟨-, hstart⟩, hfinish, -⟩
    exact ⟨hstart, hfinish⟩

end Scope

/-! ### The order of registrations -/

namespace Context

/-- Contexts tie unless they are two named ones that differ. -/
def Ties (c d : Context) : Prop := c = d ∨ c = none ∨ d = none

theorem Ties.symm {c d : Context} (h : Ties c d) :
  Ties d c
  := by
  rcases h with h | h | h
  · left
    apply h.symm
  · right
    right
    apply h
  · right
    left
    apply h

theorem compareNamed_eq {c d : Context} (h : Ties c d) :
  compareNamed c d = .eq
  := by
  rcases h with rfl | rfl | rfl
  · cases c with
    | none => rfl
    | some name => exact (Std.ReflCmp.compare_self : compare name name = .eq)
  · rfl
  · cases c <;> rfl

end Context

/-- Criteria that apply one after the other compare lexicographically. -/
theorem compares_lex {α β : Type} [LinearOrder α] [LinearOrder β] {a a' : α} {b b' : β}
    {o o' : Ordering} (ho : o.Compares a a') (ho' : o'.Compares b b') :
  (o.then o').Compares (toLex (a, b)) (toLex (a', b'))
  := by
  cases o with
  | lt => apply Prod.Lex.toLex_lt_toLex.mpr (.inl ho)
  | gt => apply Prod.Lex.toLex_lt_toLex.mpr (.inl ho)
  | eq =>
      cases (ho : a = a')
      cases o' with
      | lt => exact Prod.Lex.toLex_lt_toLex.mpr (.inr ⟨rfl, ho'⟩)
      | gt => exact Prod.Lex.toLex_lt_toLex.mpr (.inr ⟨rfl, ho'⟩)
      | eq => exact congrArg (fun b => toLex (a, b)) ho'

theorem compares_compare {α : Type} [LinearOrder α] (a b : α) :
  (compare a b).Compares a b
  := compare_iff a b |>.mp rfl

/-- A value with something above all values compares as the value does. -/
theorem compares_coe {α : Type} [LinearOrder α] {a b : α} {o : Ordering} (h : o.Compares a b) :
  o.Compares (a : WithTop α) (b : WithTop α)
  := by
  cases o with
  | lt => apply WithTop.coe_lt_coe.mpr h
  | gt => apply WithTop.coe_lt_coe.mpr h
  | eq => apply congrArg _ h

namespace Scope

theorem compareEnds_compares (a b : Scope) :
  (a.compareEnds b).Compares (toLex (!a.lower.included, a.finish))
    (toLex (!b.lower.included, b.finish))
  := by
  rw [compareEnds]
  apply compares_lex
  · have hnot : ∀ x y : Bool, compare x y = compare (!y) (!x) := by decide
    rw [hnot]
    apply compares_compare
  · rw [finish, finish]
    cases a.upper with
    | none =>
        cases b.upper with
        | none => rfl
        | some y => apply Cut.beside_lt_top
    | some x =>
        cases b.upper with
        | none => apply Cut.beside_lt_top
        | some y =>
            apply compares_coe
            apply compares_lex (compares_compare _ _)
            apply compares_compare

end Scope

namespace ContextScope

/-- What decides the order of context scopes as long as their contexts tie: the OID where they
begin, whether they belong to the default context, whether they exclude that OID, and the cut
where they finish. -/
def rank (s : ContextScope) : Oid ×ₗ Bool ×ₗ Bool ×ₗ Cut :=
  toLex (s.scope.lower.oid,
    toLex (s.context.isNone, toLex (!s.scope.lower.included, s.scope.finish)))

theorem compareTag_compares (a b : ContextScope) :
  (compareTag a b).Compares a.context.isNone b.context.isNone
  := by
  rw [compareTag]
  cases a.context <;> cases b.context <;> simp [Ordering.Compares]

/-- Context scopes whose contexts tie are ordered by their ranks. -/
theorem order_compares {a b : ContextScope} (h : Context.Ties a.context b.context) :
  (a.order b).Compares a.rank b.rank
  := by
  rw [order, Context.compareNamed_eq h]
  apply compares_lex (compares_compare _ _)
  apply compares_lex (compareTag_compares a b)
  apply Scope.compareEnds_compares

theorem order_swap {a b : ContextScope} (h : Context.Ties a.context b.context) :
  b.order a = (a.order b).swap
  := by
  have hswap := Ordering.compares_swap.mpr (order_compares h)
  apply (order_compares h.symm).inj hswap

theorem order_ne_gt_trans {a b c : ContextScope} (hab : Context.Ties a.context b.context)
    (hbc : Context.Ties b.context c.context) (hac : Context.Ties a.context c.context)
    (h : a.order b ≠ .gt) (h' : b.order c ≠ .gt) :
  a.order c ≠ .gt
  := by
  rw [(order_compares hab).ne_gt] at h
  rw [(order_compares hbc).ne_gt] at h'
  rw [(order_compares hac).ne_gt]
  apply h.trans h'

theorem rank_lt_of_oid_lt {a b : ContextScope} (h : a.scope.lower.oid < b.scope.lower.oid) :
  a.rank < b.rank
  := Prod.Lex.toLex_lt_toLex.mpr (.inl h)

/-- A scope of a named context precedes one of the default context that does not begin before
it. -/
theorem rank_lt_of_named {a b : ContextScope} {name : Octets} (ha : a.context = some name)
    (hb : b.context = none) (h : a.scope.lower.oid ≤ b.scope.lower.oid) :
  a.rank < b.rank
  := by
  rcases h.lt_or_eq with hlt | heq
  · apply rank_lt_of_oid_lt hlt
  · rw [rank, rank, ha, hb, Prod.Lex.toLex_lt_toLex]
    right
    use heq
    rw [Prod.Lex.toLex_lt_toLex]
    left
    rfl

theorem rank_lt_of_start_lt {a b : ContextScope} (hcontext : a.context = b.context)
    (h : a.scope.start < b.scope.start) :
  a.rank < b.rank
  := by
  rcases Cut.beside_lt_beside.mp h with hlt | ⟨heq, hincluded⟩
  · apply rank_lt_of_oid_lt hlt
  · rw [rank, rank, hcontext, Prod.Lex.toLex_lt_toLex]
    right
    use heq
    rw [Prod.Lex.toLex_lt_toLex]
    right
    use rfl
    rw [Prod.Lex.toLex_lt_toLex]
    left
    apply hincluded

/-- Nonempty scopes that do not overlap stand in their order one after the other. -/
theorem finish_le_start_iff {a b : ContextScope} (hcontext : a.context = b.context)
    (ha : a.scope.start < a.scope.finish) (hb : b.scope.start < b.scope.finish) :
  a.scope.finish ≤ b.scope.start ↔ a.order b = .lt ∧ a.scope.overlaps b.scope = false
  := by
  rw [(order_compares (.inl hcontext)).eq_lt]
  constructor
  · intro h
    constructor
    · apply rank_lt_of_start_lt hcontext (ha.trans_le h)
    · apply Scope.overlaps_eq_false h
  · rintro ⟨hrank, hdisjoint⟩
    apply (Scope.finish_le_start_or ha hb hdisjoint).resolve_right
    intro hfinish
    apply lt_asymm hrank (rank_lt_of_start_lt hcontext.symm (hb.trans_le hfinish))

/-- A context scope comes before the window of a query when it finishes before the window
starts. -/
theorem orderToWindow_eq_lt_iff {s window : ContextScope}
    (h : Context.Ties s.context window.context) :
  s.orderToWindow window = .lt ↔ s.scope.finish ≤ window.scope.start
  := by
  rw [orderToWindow, Context.compareNamed_eq h, ← not_lt, Scope.start, Scope.finish]
  cases s.scope.upper with
  | none => simp [Endpoint.start, Cut.beside_lt_top]
  | some upper =>
      rw [Option.elim_some, Endpoint.start_lt_finish_iff]
      simp only [Ordering.then]
      cases hc : compare upper.oid window.scope.lower.oid with
      | lt =>
          rw [compare_lt_iff_lt] at hc
          simp [hc.not_gt, hc.ne']
      | eq =>
          rw [compare_eq_iff_eq] at hc
          simp [hc]
      | gt =>
          rw [compare_gt_iff_gt] at hc
          simp [hc]

end ContextScope

end MibAgent
