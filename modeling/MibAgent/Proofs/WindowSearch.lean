import MibAgent.Proofs.Partitions

/-!
# The search for a window

The search for a window in a partition leaves out some entries at the front without looking at their
scopes one by one, and goes no further than the first entry that starts after the window. Where the
partition is in the order of comparison, and its scopes have room and do not overlap, the entries
finish in the order in which they start. So neither end of the search is too narrow: what is left
out at the front comes before the window, and what is left out at the back starts after it.
-/

namespace MibAgent

namespace Partition

/-- The entries of a partition are in the order of comparison, have room, and do not overlap. -/
structure IsSorted (c : Context) (part : Partition) : Prop where
  tagged : ∀ e ∈ part.toList, e.scope.context = c
  ascending : part.toList.Pairwise fun a b => a.scope.order b.scope ≠ .gt
  inhabited : ∀ e ∈ part.toList, e.scope.scope.isEmpty = false
  disjoint : part.toList.Pairwise fun a b => a.scope.scope.overlaps b.scope.scope = false

variable {part : Partition} {c : Context} {window : ContextScope}

/-- Each entry finishes before the next one starts. -/
theorem IsSorted.orderly (h : part.IsSorted c) :
  Orderly c part.toList
  where
  tagged := h.tagged
  inhabited e he := Scope.isEmpty_eq_false_iff.mp (h.inhabited e he)
  separate := by
    apply (h.ascending.and h.disjoint).imp_of_mem
    rintro a b ha hb ⟨horder, hdisjoint⟩
    have hcontext := (h.tagged a ha).trans (h.tagged b hb).symm
    have hroom := Scope.isEmpty_eq_false_iff.mp (h.inhabited a ha)
    have hroom' := Scope.isEmpty_eq_false_iff.mp (h.inhabited b hb)
    apply (Scope.finish_le_start_or hroom hroom' hdisjoint).resolve_right
    intro hfinish
    -- the later entry would be the lesser one
    have hswap := ContextScope.order_swap (.inl hcontext.symm)
    rw [((ContextScope.finish_le_start_iff hcontext.symm hroom' hroom).mp hfinish).1] at hswap
    apply horder hswap

/-- How many entries the search for a window leaves out at the front. -/
def passed (part : Partition) (window : ContextScope) : Nat :=
  part.front fun e => e.scope.orderToWindow window == .lt

/-- The entries that the search for a window leaves out at the back. -/
def unreached (part : Partition) (window : ContextScope) : List Entry :=
  (part.toList.drop (part.passed window)).dropWhile fun e =>
    !e.scope.scope.startsAfter window.scope

end Partition

namespace Orderly

variable {part : Partition} {c : Context} {window : ContextScope} (h : Orderly c part.toList)
  (hties : Context.Ties c window.context)
include h hties

/-- What is left out at the front comes before the window. -/
theorem ended_of_mem_take {e : Entry} (he : e ∈ part.toList.take (part.passed window)) :
  e.scope.orderToWindow window = .lt
    ∧ e.scope.scope.overlaps window.scope = false
  := by
  rw [Partition.passed, Partition.take_front (h.holdsBefore_window hties)] at he
  obtain ⟨hmem, hended⟩ := List.mem_filter.mp he
  rw [beq_iff_eq] at hended
  use hended
  rw [← h.tagged e hmem] at hties
  apply Scope.overlaps_eq_false ((ContextScope.orderToWindow_eq_lt_iff hties).mp hended)

/-- What is not left out at the front does not come before the window. -/
theorem not_ended_of_mem_drop {e : Entry} (he : e ∈ part.toList.drop (part.passed window)) :
  e.scope.orderToWindow window ≠ .lt
  := by
  rw [Partition.passed, Partition.drop_front (h.holdsBefore_window hties)] at he
  have hneg := (List.mem_filter.mp he).2
  rw [Bool.not_eq_true', beq_eq_false_iff_ne] at hneg
  apply hneg

omit hties in
/-- What is left out at the back starts after the window. -/
theorem startsAfter_of_mem_unreached {e : Entry} (he : e ∈ part.unreached window) :
  e.scope.scope.startsAfter window.scope ∧ e.scope.scope.overlaps window.scope = false
  := by
  have hreached : HoldsBefore (fun e => !e.scope.scope.startsAfter window.scope)
      (part.toList.drop (part.passed window)) :=
    (h.holdsBefore_reached window.scope).sublist (List.drop_sublist _ _)
  rw [Partition.unreached, hreached.dropWhile_eq] at he
  have hafter := (List.mem_filter.mp he).2
  rw [Bool.not_not] at hafter
  use hafter
  rw [Scope.overlaps_comm]
  apply Scope.overlaps_eq_false (Scope.startsAfter_iff.mp hafter)

end Orderly

namespace Partition

variable {part : Partition} {c : Context} {window : ContextScope}

/-- In a sorted partition the search for a window finds exactly the entries that overlap it, in
their order. What it leaves out at the front are the entries that come before the window, all of
them and no other ones, and what it leaves out at the back are entries that start after the window.
-/
theorem IsSorted.window_search (h : part.IsSorted c) (hties : Context.Ties c window.context) :
  part.overlapping window = part.toList.filter (fun e => e.scope.scope.overlaps window.scope)
    ∧ (∀ e ∈ part.toList.take (part.passed window),
        e.scope.orderToWindow window = .lt
          ∧ e.scope.scope.overlaps window.scope = false)
    ∧ (∀ e ∈ part.toList.drop (part.passed window),
        e.scope.orderToWindow window ≠ .lt)
    ∧ ∀ e ∈ part.unreached window,
        e.scope.scope.startsAfter window.scope ∧ e.scope.scope.overlaps window.scope = false
  := by
  refine ⟨h.orderly.overlapping_eq window hties, ?_, ?_, ?_⟩
  · intro e he
    apply h.orderly.ended_of_mem_take hties he
  · intro e he
    apply h.orderly.not_ended_of_mem_drop hties he
  · intro e he
    apply h.orderly.startsAfter_of_mem_unreached he

/-- A single OID, what comes after it, and an unbounded scope, in the default context. The search
for a window of another context that begins after 1.1 and ends at 1.4 finds the second one alone. -/
theorem IsSorted.touching_search :
  let upTo (x y : Oid) (included : Bool) : Scope := .between x included (some y) true
  let single : Entry := ⟨⟨none, upTo ⟨[1, 1]⟩ ⟨[1, 1]⟩ true⟩, 1⟩
  let next : Entry := ⟨⟨none, upTo ⟨[1, 1]⟩ ⟨[1, 3]⟩ false⟩, 2⟩
  let last : Entry := ⟨⟨none, .after ⟨[1, 4]⟩⟩, 3⟩
  let part : Partition := #[single, next, last]
  let window : ContextScope := ⟨some [99], upTo ⟨[1, 1]⟩ ⟨[1, 4]⟩ false⟩
  part.IsSorted none ∧ Context.Ties none window.context
    ∧ part.overlapping window = [next] ∧ part.take (part.passed window) = #[single]
    ∧ last.scope.scope.startsAfter window.scope
  := by
  intro upTo single next last part window
  have hsorted : part.IsSorted none := ⟨by decide, by decide, by decide, by decide⟩
  have hties : Context.Ties none window.context := .inr (.inl rfl)
  obtain ⟨hfound, -, -, hafter⟩ := hsorted.window_search hties
  refine ⟨hsorted, hties, hfound.trans (by decide), by decide +kernel, ?_⟩
  apply (hafter last _).1
  decide +kernel

end Partition

end MibAgent
