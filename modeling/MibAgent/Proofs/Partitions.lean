import MibAgent.Proofs.Cuts
import MibAgent.Registry.Partition
import Mathlib.Data.List.Pairwise

/-!
# Partitions in order

In a partition in order, every registration finishes before the next one starts. So whatever
holds of a registration because it finishes early enough, or starts early enough, holds of all
those before it: bisection finds where it ends, and the search for a window passes over nothing
that overlaps the window.
-/

namespace MibAgent

/-! ### Bisection -/

/-- Bisection finds where a property ends that holds of the numbers below `k` only. -/
theorem bisect_eq (p : Nat → Bool) {low high k : Nat} (hlow : low ≤ k) (hhigh : k ≤ high)
    (hbelow : ∀ i < k, p i) (habove : ∀ i, k ≤ i → i < high → p i = false) :
  bisect p low high = k
  := by
  fun_induction bisect p low high with
  | case1 low high hlt middle hp ih =>
      have hmiddle : middle < k := by
        by_contra hk
        have hfalse := habove middle (not_lt.mp hk) (by omega)
        rw [hp] at hfalse
        cases hfalse
      apply ih (by omega) hhigh habove
  | case2 low high hlt middle hp ih =>
      have hmiddle : k ≤ middle := by
        by_contra hk
        apply hp (hbelow middle (not_le.mp hk))
      apply ih hlow hmiddle
      intro i hi hilt
      apply habove i hi (by omega)
  | case3 low high hlt => omega

/-- A property that holds of everything before something of which it holds. -/
def HoldsBefore {α : Type} (P : α → Prop) (l : List α) : Prop :=
  l.Pairwise fun a b => P b → P a

namespace HoldsBefore

variable {α : Type} {P Q : α → Prop} {p : α → Bool} {l : List α}

theorem congr (h : HoldsBefore P l) (hiff : ∀ a ∈ l, (Q a ↔ P a)) :
  HoldsBefore Q l
  := by
  apply List.Pairwise.imp_of_mem _ h
  intro a b ha hb hab
  rw [hiff a ha, hiff b hb]
  apply hab

/-- What has the property comes first, and what has it not comes then. -/
theorem split (h : HoldsBefore (p ·) l) :
  l = l.filter p ++ l.filter (!p ·)
  := by
  induction l with
  | nil => rfl
  | cons a rest ih =>
      obtain ⟨hhead, hrest⟩ := List.pairwise_cons.mp h
      cases ha : p a with
      | true =>
          rw [List.filter_cons_of_pos ha, List.filter_cons_of_neg (by simp [ha]),
            List.cons_append, ← ih hrest]
      | false =>
          simp only [ha, Bool.false_eq_true, imp_false, Bool.not_eq_true] at hhead
          rw [List.filter_eq_nil_iff.mpr (by simpa [ha] using hhead), List.nil_append,
            List.filter_eq_self.mpr (by simpa [ha] using hhead)]

theorem takeWhile_eq (h : HoldsBefore (p ·) l) :
  l.takeWhile p = l.filter p
  := by
  conv_lhs => rw [h.split]
  rw [List.takeWhile_append_of_pos (fun a ha => (List.mem_filter.mp ha).2)]
  cases hrest : l.filter (!p ·) with
  | nil => rw [List.takeWhile_nil, List.append_nil]
  | cons a rest =>
      have ha : a ∈ l.filter (!p ·) := by
        rw [hrest]
        apply List.mem_cons_self
      have hneg := (List.mem_filter.mp ha).2
      rw [List.takeWhile_cons_of_neg (by simpa using hneg), List.append_nil]

theorem dropWhile_eq (h : HoldsBefore (p ·) l) :
  l.dropWhile p = l.filter (!p ·)
  := by
  apply (List.append_right_inj (l.filter p)).mp
  rw [← h.split, ← h.takeWhile_eq, List.takeWhile_append_dropWhile]

end HoldsBefore

theorem insertIdx_length {α : Type} (earlier later : List α) (a : α) :
  (earlier ++ later).insertIdx earlier.length a = earlier ++ a :: later
  := by
  induction earlier with
  | nil => rw [List.nil_append, List.length_nil, List.insertIdx_zero, List.nil_append]
  | cons b rest ih =>
      rw [List.cons_append, List.length_cons, List.insertIdx_succ_cons, ih, List.cons_append]

namespace Partition

variable {part : Partition} {p : Entry → Bool}

/-- Bisection finds how many entries of a partition have a property that holds before. -/
theorem front_eq (h : HoldsBefore (p ·) part.toList) :
  part.front p = (part.toList.filter p).length
  := by
  have hsplit := h.split
  have hsize : part.size
      = (part.toList.filter p).length + (part.toList.filter (!p ·)).length := by
    rw [← List.length_append, ← hsplit, Array.length_toList]
  apply bisect_eq
  · apply Nat.zero_le
  · omega
  · intro i hi
    have hmem := List.getElem_mem hi
    rw [← Array.getElem?_toList, hsplit, List.getElem?_append_left hi,
      List.getElem?_eq_getElem hi, Option.any_some]
    apply (List.mem_filter.mp hmem).2
  · intro i hi _
    rw [← Array.getElem?_toList, hsplit, List.getElem?_append_right hi, Option.any_eq_false]
    intro e he
    have hmem := List.mem_of_getElem? he
    simpa using (List.mem_filter.mp hmem).2

theorem drop_front (h : HoldsBefore (p ·) part.toList) :
  part.toList.drop (part.front p) = part.toList.filter (!p ·)
  := by
  rw [front_eq h]
  conv_lhs =>
    arg 2
    rw [h.split]
  apply List.drop_left

theorem take_front (h : HoldsBefore (p ·) part.toList) :
  part.toList.take (part.front p) = part.toList.filter p
  := by
  rw [front_eq h]
  conv_lhs =>
    arg 2
    rw [h.split]
  apply List.take_left

theorem toList_insert_front (h : HoldsBefore (p ·) part.toList) (e : Entry) :
  (part.insertIdxIfInBounds (part.front p) e).toList
    = part.toList.filter p ++ e :: part.toList.filter (!p ·)
  := by
  have hsize : (part.toList.filter p).length ≤ part.size := by
    rw [← Array.length_toList]
    apply List.length_filter_le
  rw [front_eq h, Array.insertIdxIfInBounds, dif_pos hsize, Array.toList_insertIdx]
  conv_lhs =>
    arg 1
    rw [h.split]
  apply insertIdx_length

end Partition

/-! ### Order -/

/-- Registrations of one context in order: none is empty, and each finishes before the next one
starts. -/
structure Orderly (c : Context) (entries : List Entry) : Prop where
  tagged : ∀ e ∈ entries, e.scope.context = c
  inhabited : ∀ e ∈ entries, e.scope.scope.start < e.scope.scope.finish
  separate : entries.Pairwise fun a b => a.scope.scope.finish ≤ b.scope.scope.start

namespace Orderly

variable {c : Context} {entries earlier later : List Entry} {e e' : Entry}

theorem nil :
  Orderly c []
  := by
  constructor
  · nofun
  · nofun
  · apply List.Pairwise.nil

theorem sublist (h : Orderly c entries) (hsub : earlier.Sublist entries) :
  Orderly c earlier
  where
  tagged e he := h.tagged e (hsub.subset he)
  inhabited e he := h.inhabited e (hsub.subset he)
  separate := h.separate.sublist hsub

/-- A registration can be put between two others when there is room for it. -/
theorem insert (h : Orderly c (earlier ++ later)) (htagged : e.scope.context = c)
    (hinhabited : e.scope.scope.start < e.scope.scope.finish)
    (hearlier : ∀ a ∈ earlier, a.scope.scope.finish ≤ e.scope.scope.start)
    (hlater : ∀ b ∈ later, e.scope.scope.finish ≤ b.scope.scope.start) :
  Orderly c (earlier ++ e :: later)
  := by
  constructor
  · intro a ha
    rw [List.mem_append, List.mem_cons, or_left_comm, ← List.mem_append] at ha
    rcases ha with rfl | ha
    · apply htagged
    · apply h.tagged a ha
  · intro a ha
    rw [List.mem_append, List.mem_cons, or_left_comm, ← List.mem_append] at ha
    rcases ha with rfl | ha
    · apply hinhabited
    · apply h.inhabited a ha
  · obtain ⟨hpre, hpost, hcross⟩ := List.pairwise_append.mp h.separate
    rw [List.pairwise_append, List.pairwise_cons]
    use hpre, ⟨hlater, hpost⟩
    intro a ha
    rw [List.forall_mem_cons]
    exact ⟨hearlier a ha, hcross a ha⟩

/-- A registration can be replaced by one that takes no more room. -/
theorem replace (h : Orderly c (earlier ++ e :: later)) (htagged : e'.scope.context = c)
    (hinhabited : e'.scope.scope.start < e'.scope.scope.finish)
    (hstart : e.scope.scope.start ≤ e'.scope.scope.start)
    (hfinish : e'.scope.scope.finish ≤ e.scope.scope.finish) :
  Orderly c (earlier ++ e' :: later)
  := by
  have hsub : (earlier ++ later).Sublist (earlier ++ e :: later) :=
    (List.Sublist.refl _).append (List.sublist_cons_self _ _)
  obtain ⟨-, hcons, hcross⟩ := List.pairwise_append.mp h.separate
  apply (h.sublist hsub).insert htagged hinhabited
  · intro a ha
    apply (hcross a ha e List.mem_cons_self).trans hstart
  · intro b hb
    apply hfinish.trans ((List.pairwise_cons.mp hcons).1 b hb)

/-- In order, registrations ascend and do not overlap. -/
theorem pairwise_order (h : Orderly c entries) :
  entries.Pairwise fun a b =>
    a.scope.order b.scope = .lt ∧ a.scope.scope.overlaps b.scope.scope = false
  := by
  apply h.separate.imp_of_mem
  intro a b ha hb hab
  have hcontext := (h.tagged a ha).trans (h.tagged b hb).symm
  apply (ContextScope.finish_le_start_iff hcontext (h.inhabited a ha) (h.inhabited b hb)).mp hab

/-- The scopes start in order. -/
theorem pairwise_start (h : Orderly c entries) :
  entries.Pairwise fun a b => a.scope.scope.start < b.scope.scope.start
  := by
  apply h.separate.imp_of_mem
  intro a b ha _ hab
  apply (h.inhabited a ha).trans_le hab

theorem pairwise_rank (h : Orderly c entries) :
  entries.Pairwise fun a b => a.scope.rank < b.scope.rank
  := by
  apply h.pairwise_order.imp_of_mem
  intro a b ha hb hab
  have hcontext := (h.tagged a ha).trans (h.tagged b hb).symm
  apply (ContextScope.order_compares (.inl hcontext)).eq_lt.mp hab.1

/-- Registrations in order of which each contains the same OID are the same. -/
theorem eq_of_contains (h : Orderly c entries) {x : Oid} (he : e ∈ entries) (he' : e' ∈ entries)
    (hx : e.scope.scope.contains x) (hx' : e'.scope.scope.contains x) :
  e = e'
  := by
  let Same (a b : Entry) : Prop :=
    a.scope.scope.contains x → b.scope.scope.contains x → a = b
  have hsymm : Std.Symm Same := ⟨fun _ _ hab hb ha => (hab ha hb).symm⟩
  have hsame : entries.Pairwise Same := by
    apply h.separate.imp
    intro a b hab ha hb
    rw [Scope.contains_iff] at ha hb
    -- the first scope would finish behind its own end
    apply absurd _ (lt_irrefl a.scope.scope.finish)
    apply (hab.trans (Cut.le_beside_of_lt hb.1)).trans_lt ha.2
  apply hsame.forall_of_forall (fun _ _ _ _ => rfl) he he' hx hx'

theorem holdsBefore_finish (h : Orderly c entries) (cut : Cut) :
  HoldsBefore (fun e => e.scope.scope.finish ≤ cut) entries
  := by
  apply h.separate.imp_of_mem
  intro a b _ hb hab hcut
  apply hab.trans ((h.inhabited b hb).le.trans hcut)

theorem holdsBefore_start (h : Orderly c entries) (cut : Cut) :
  HoldsBefore (fun e => e.scope.scope.start < cut) entries
  := by
  apply h.pairwise_start.imp
  intro a b hab hcut
  apply hab.trans hcut

/-- The registrations that come before a window come before all others. -/
theorem holdsBefore_window (h : Orderly c entries) {window : ContextScope}
    (hties : Context.Ties c window.context) :
  HoldsBefore (fun e => e.scope.orderToWindow window == .lt) entries
  := by
  apply (h.holdsBefore_finish window.scope.start).congr
  intro e he
  rw [← h.tagged e he] at hties
  rw [beq_iff_eq, ContextScope.orderToWindow_eq_lt_iff hties]

/-- The registrations that a window reaches come before those that start after it. -/
theorem holdsBefore_reached (h : Orderly c entries) (window : Scope) :
  HoldsBefore (fun e => !e.scope.scope.startsAfter window) entries
  := by
  apply (h.holdsBefore_start window.finish).congr
  intro e _
  rw [Bool.not_eq_true', ← Bool.not_eq_true, Scope.startsAfter_iff, not_le]

/-- The search for a window finds what overlaps it. -/
theorem overlapping_eq {part : Partition} (h : Orderly c part.toList) (window : ContextScope)
    (hties : Context.Ties c window.context) :
  part.overlapping window
    = part.toList.filter fun e => e.scope.scope.overlaps window.scope
  := by
  have hfound : HoldsBefore (fun e => !e.scope.scope.startsAfter window.scope)
      (part.toList.filter fun e => !e.scope.orderToWindow window == .lt) :=
    List.Pairwise.filter _ (h.holdsBefore_reached window.scope)
  rw [Partition.overlapping, Partition.drop_front (h.holdsBefore_window hties),
    hfound.takeWhile_eq, List.filter_filter, List.filter_filter]
  apply List.filter_congr
  intro e he
  cases hoverlaps : e.scope.scope.overlaps window.scope with
  | false => simp
  | true =>
      obtain ⟨⟨-, hstart⟩, hfinish, -⟩ := Scope.overlaps_iff_lt.mp hoverlaps
      rw [← h.tagged e he] at hties
      have hended := mt (ContextScope.orderToWindow_eq_lt_iff hties).mp (not_le.mpr hfinish)
      have hafter := mt Scope.startsAfter_iff.mp (not_le.mpr hstart)
      simp [hended, hafter]

/-- A registration that overlaps no other can be put in its place. -/
theorem place {part : Partition} (h : Orderly c part.toList) (htagged : e.scope.context = c)
    (hinhabited : e.scope.scope.start < e.scope.scope.finish)
    (hdisjoint : ∀ other ∈ part.toList, other.scope.scope.overlaps e.scope.scope = false) :
  Orderly c (part.place e).toList
  := by
  have hbefore : ∀ other ∈ part.toList, ((other.scope.order e.scope == .lt) = true
      ↔ other.scope.scope.finish ≤ e.scope.scope.start) := by
    intro other hother
    have hcontext := (h.tagged other hother).trans htagged.symm
    rw [ContextScope.finish_le_start_iff hcontext (h.inhabited other hother) hinhabited,
      hdisjoint other hother, and_iff_left rfl, beq_iff_eq]
  have hholds := (h.holdsBefore_finish _).congr hbefore
  have hsplit := h
  rw [hholds.split] at hsplit
  rw [Partition.place, Partition.toList_insert_front hholds]
  apply hsplit.insert htagged hinhabited
  · intro other hother
    obtain ⟨hmem, hother⟩ := List.mem_filter.mp hother
    apply (hbefore other hmem).mp hother
  · intro other hother
    obtain ⟨hmem, hother⟩ := List.mem_filter.mp hother
    rw [Bool.not_eq_true', ← Bool.not_eq_true, hbefore other hmem] at hother
    have hsides := Scope.finish_le_start_or (h.inhabited other hmem) hinhabited
      (hdisjoint other hmem)
    apply hsides.resolve_left hother

/-- A registration can give up room at its upper end. -/
theorem setIfInBounds {part : Partition} {i : Nat} (h : Orderly c part.toList)
    (he : part[i]? = some e) (e' : Entry) (hcontext : e'.scope.context = e.scope.context)
    (hinhabited : e'.scope.scope.start < e'.scope.scope.finish)
    (hstart : e'.scope.scope.start = e.scope.scope.start)
    (hfinish : e'.scope.scope.finish ≤ e.scope.scope.finish) :
  Orderly c (part.setIfInBounds i e').toList
  := by
  obtain ⟨hi, rfl⟩ := Array.getElem?_eq_some_iff.mp he
  have hlength : i < part.toList.length := by
    rw [Array.length_toList]
    apply hi
  have hsplit : part.toList.take i ++ part[i] :: part.toList.drop (i + 1) = part.toList := by
    rw [← Array.getElem_toList hi, List.getElem_cons_drop, List.take_append_drop]
  have htagged := hcontext.trans (h.tagged _ (Array.getElem_mem_toList hi))
  rw [← hsplit] at h
  rw [Array.toList_setIfInBounds, List.set_eq_take_append_cons_drop, if_pos hlength]
  apply h.replace htagged hinhabited hstart.ge hfinish

end Orderly

end MibAgent
