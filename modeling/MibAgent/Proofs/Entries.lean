import MibAgent.Proofs.Partitions
import MibAgent.Registry.Store
import Mathlib.Data.List.Basic

/-!
# The list of all registrations

All registrations are listed context by context. A store is in order when the registrations of each
context are. Those of one context stand together in the list, between those of the contexts before
it and those of the contexts after it. So whatever is changed in one context changes this part of
the list and nothing else, and the first registration in the way of another one is the first in the
list.
-/

namespace MibAgent

/-! ### Entries of a map -/

namespace OrderedMap

variable {κ α : Type} [Ord κ]

theorem mem_of_lookupEntry [Std.LawfulEqOrd κ] {k : κ} {v : α} {l : List (κ × α)}
    (h : lookupEntry k l = some v) :
  (k, v) ∈ l
  := by
  induction l with
  | nil => cases h
  | cons e rest ih =>
      rw [lookupEntry] at h
      split at h
      · rename_i heq
        cases Std.LawfulEqOrd.eq_of_compare heq
        cases h
        apply List.mem_cons_self
      · apply List.mem_cons_of_mem _ (ih h)

theorem mem_entries_iff [Std.TransOrd κ] [Std.LawfulEqOrd κ] {m : OrderedMap κ α} {k : κ} {v : α} :
  (k, v) ∈ m.entries ↔ m.get? k = some v
  := by
  constructor
  · intro h
    rw [get?]
    have hascending := m.ascending
    generalize m.entries = l at h hascending
    induction l with
    | nil => cases h
    | cons e rest ih =>
        obtain ⟨hhead, hrest⟩ := List.pairwise_cons.mp hascending
        rw [lookupEntry]
        rcases List.mem_cons.mp h with rfl | h
        · rw [if_pos Std.ReflCmp.compare_self]
        · rw [if_neg, ih h hrest]
          intro heq
          have hlt := hhead _ h
          rw [Std.OrientedCmp.eq_symm heq] at hlt
          cases hlt
  · apply mem_of_lookupEntry

/-- Where all keys are greater than a key, no entry has it. -/
theorem filter_ne_eq_self {k : κ} {l : List (κ × α)} (h : ∀ a ∈ l, compare k a.1 = .lt) :
  l.filter (fun e => compare k e.1 ≠ .eq) = l
  := by
  rw [List.filter_eq_self]
  intro a ha
  rw [h a ha]
  rfl

/-- A key has one place among the entries, where its entry stands, is put, or is missing. -/
theorem exists_place [Std.TransOrd κ] [Std.LawfulEqOrd κ] (k : κ) {l : List (κ × α)}
    (h : l.Pairwise fun a b => compare a.1 b.1 = .lt) :
  ∃ before after, l = before ++ ((lookupEntry k l).map (k, ·)).toList ++ after
    ∧ (∀ v, insertEntry k v l = before ++ (k, v) :: after)
    ∧ l.filter (fun e => compare k e.1 ≠ .eq) = before ++ after
  := by
  induction l with
  | nil => exact ⟨[], [], rfl, fun _ => rfl, rfl⟩
  | cons e rest ih =>
      obtain ⟨hhead, hrest⟩ := List.pairwise_cons.mp h
      cases hc : compare k e.1 with
      | lt =>
          have hless : ∀ a ∈ e :: rest, compare k a.1 = .lt := by
            rw [List.forall_mem_cons]
            exact ⟨hc, fun a ha => Std.TransCmp.lt_trans hc (hhead a ha)⟩
          have hnone : lookupEntry k (e :: rest) = none := by
            apply lookupEntry_eq_none
            intro a ha
            simp [hless a ha]
          use [], e :: rest
          rw [hnone, filter_ne_eq_self hless]
          refine ⟨rfl, ?_, rfl⟩
          intro v
          rw [insertEntry, hc]
          rfl
      | eq =>
          have hless : ∀ a ∈ rest, compare k a.1 = .lt :=
            fun a ha => Std.TransCmp.lt_of_eq_of_lt hc (hhead a ha)
          use [], rest
          rw [lookupEntry, if_pos hc, List.filter_cons_of_neg (by simp [hc]),
            filter_ne_eq_self hless]
          refine ⟨?_, ?_, rfl⟩
          · cases Std.LawfulEqOrd.eq_of_compare hc
            rfl
          · intro v
            rw [insertEntry, hc]
            rfl
      | gt =>
          obtain ⟨before, after, hl, hinsert, hfilter⟩ := ih hrest
          use e :: before, after
          rw [lookupEntry, if_neg (by simp [hc]), List.filter_cons_of_pos (by simp [hc]), hfilter]
          refine ⟨?_, ?_, rfl⟩
          · rw [List.cons_append, List.cons_append, ← hl]
          · intro v
            rw [insertEntry, hc, List.cons_append, ← hinsert]

end OrderedMap

/-! ### Stores in order -/

namespace Store

/-- The registrations of each context are in order, and there are some in each context that has a
partition. -/
structure IsOrderly (s : Store) : Prop where
  nonempty : ∀ c part, s.partitions.get? c = some part → part.toList ≠ []
  orderly : ∀ c part, s.partitions.get? c = some part → Orderly c part.toList

namespace IsOrderly

variable {s : Store}

theorem empty :
  Store.empty.IsOrderly
  := by
  constructor
  · nofun
  · nofun

theorem partition (h : s.IsOrderly) (c : Context) :
  Orderly c (s.partition c).toList
  := by
  rw [Store.partition]
  cases hpart : s.partitions.get? c with
  | none => apply Orderly.nil
  | some part => apply h.orderly c part hpart

theorem withPartition (h : s.IsOrderly) {c : Context} {part : Partition}
    (hpart : Orderly c part.toList) :
  (s.withPartition c part).IsOrderly
  := by
  have hget : ∀ d other, (s.withPartition c part).partitions.get? d = some other →
      other.toList ≠ [] ∧ Orderly d other.toList := by
    intro d other hother
    rw [Store.withPartition] at hother
    split at hother
    · rw [OrderedMap.get?_erase] at hother
      split at hother
      · cases hother
      · exact ⟨h.nonempty d other hother, h.orderly d other hother⟩
    · rename_i hempty
      rw [OrderedMap.get?_insert] at hother
      split at hother
      · rename_i heq
        cases Std.LawfulEqOrd.eq_of_compare heq
        cases hother
        exact ⟨by simpa using hempty, hpart⟩
      · exact ⟨h.nonempty d other hother, h.orderly d other hother⟩
  constructor
  · intro d other hother
    apply (hget d other hother).1
  · intro d other hother
    apply (hget d other hother).2

end IsOrderly

end Store

/-! ### Entries of a store -/

/-- Whether a registration for `a` cannot stand beside one for `b`: their scopes overlap, and `a` is
for the default context or both are for the same one. -/
def ContextScope.excludes (a b : ContextScope) : Bool :=
  (a.context == none || b.context == a.context) && b.scope.overlaps a.scope

/-- In the list of all registrations, the first one of an object in a context is `e`. -/
structure Store.SplitsAt (s : Store) (c : Context) (object : ObjectId) (earlier : List Entry)
    (e : Entry) (later : List Entry) : Prop where
  split : s.entries = earlier ++ e :: later
  registers : e.object = object
  tagged : e.scope.context = c
  first : ∀ d ∈ earlier, d.object = object → d.scope.context ≠ c

theorem Store.SplitsAt.mem {s : Store} {c : Context} {object : ObjectId} {e : Entry}
    {earlier later : List Entry} (h : s.SplitsAt c object earlier e later) :
  e ∈ s.entries
  := by
  rw [h.split]
  apply List.mem_append_right _ List.mem_cons_self

namespace Store.IsOrderly

variable {s : Store} (h : s.IsOrderly)
include h

/-- The registrations of a context stand together in the list of all registrations, and the others
are of other contexts. -/
theorem exists_around (c : Context) :
  ∃ before after, s.entries = before ++ (s.partition c).toList ++ after
    ∧ (∀ part, (s.withPartition c part).entries = before ++ part.toList ++ after)
    ∧ ∀ e ∈ before ++ after, e.scope.context ≠ c
  := by
  obtain ⟨before, after, hentries, hinsert, herase⟩ :=
    OrderedMap.exists_place c s.partitions.ascending
  use before.flatMap (·.2.toList), after.flatMap (·.2.toList)
  refine ⟨?_, ?_, ?_⟩
  · rw [entries, hentries, List.flatMap_append, List.flatMap_append, Store.partition,
      OrderedMap.get?]
    congr 2
    cases OrderedMap.lookupEntry c s.partitions.entries with
    | none => rfl
    | some part => exact List.flatMap_singleton ..
  · intro part
    rw [Store.withPartition]
    split
    · rename_i hempty
      have hnil : part.toList = [] := by simpa using hempty
      rw [hnil, List.append_nil, ← List.flatMap_append, ← herase]
      rfl
    · change (OrderedMap.insertEntry c part s.partitions.entries).flatMap (·.2.toList) = _
      rw [hinsert, List.flatMap_append, List.flatMap_cons, List.append_assoc]
  · intro e he
    rw [← List.flatMap_append, ← herase] at he
    obtain ⟨⟨d, part⟩, hpart, he⟩ := List.mem_flatMap.mp he
    obtain ⟨hmem, hne⟩ := List.mem_filter.mp hpart
    rw [OrderedMap.mem_entries_iff] at hmem
    rw [(h.orderly d part hmem).tagged e he]
    rintro rfl
    apply of_decide_eq_true hne Std.ReflCmp.compare_self

/-- Of the registrations listed, those of a context are its partition. -/
theorem filter_context (c : Context) :
  s.entries.filter (fun e => e.scope.context = c) = (s.partition c).toList
  := by
  obtain ⟨before, after, hentries, -, hothers⟩ := h.exists_around c
  have hnone : ∀ l, l ⊆ before ++ after → l.filter (fun e => e.scope.context = c) = [] := by
    intro l hl
    rw [List.filter_eq_nil_iff]
    intro e he
    simpa using hothers e (hl he)
  rw [hentries, List.filter_append, List.filter_append,
    hnone before (List.subset_append_left _ _), hnone after (List.subset_append_right _ _),
    List.nil_append, List.append_nil, List.filter_eq_self]
  intro e he
  simpa using (h.partition c).tagged e he

theorem mem_partition_iff {c : Context} {e : Entry} :
  e ∈ (s.partition c).toList ↔ e ∈ s.entries ∧ e.scope.context = c
  := by
  rw [← h.filter_context, List.mem_filter, decide_eq_true_eq]

/-- A registration stands at one place in the list, where it can be replaced or removed. In its
context, the registrations listed before it are those with a lower number. -/
theorem exists_split {c : Context} {i : Nat} {e : Entry} (he : (s.partition c)[i]? = some e) :
  ∃ earlier later, s.entries = earlier ++ e :: later
    ∧ (∀ e', (s.withPartition c ((s.partition c).setIfInBounds i e')).entries
        = earlier ++ e' :: later)
    ∧ (s.withPartition c ((s.partition c).eraseIdxIfInBounds i)).entries = earlier ++ later
    ∧ ∀ d ∈ earlier, d.scope.context = c → ∃ j < i, (s.partition c)[j]? = some d
  := by
  obtain ⟨before, after, hentries, hwith, hothers⟩ := h.exists_around c
  rw [← Array.getElem?_toList] at he
  obtain ⟨hi, rfl⟩ := List.getElem?_eq_some_iff.mp he
  use before ++ (s.partition c).toList.take i, (s.partition c).toList.drop (i + 1) ++ after
  refine ⟨?_, ?_, ?_, ?_⟩
  · rw [hentries]
    conv_lhs => rw [← List.take_append_drop i (s.partition c).toList, List.drop_eq_getElem_cons hi]
    simp
  · intro e'
    rw [hwith, Array.toList_setIfInBounds, List.set_eq_take_append_cons_drop, if_pos hi]
    simp
  · rw [hwith, Array.toList_eraseIdxIfInBounds, List.eraseIdx_eq_take_drop_succ]
    simp
  · intro d hd hc
    rcases List.mem_append.mp hd with hd | hd
    · apply absurd hc (hothers d (List.mem_append_left _ hd))
    · obtain ⟨j, hj, rfl⟩ := List.mem_take_iff_getElem.mp hd
      use j, (lt_min_iff.mp hj).1
      rw [← Array.getElem?_toList, List.getElem?_eq_getElem]

/-- What stands in the way of a registration is the first in the list that it excludes. -/
theorem conflict?_eq (scope : ContextScope) :
  s.conflict? scope = s.entries.find? fun e => scope.excludes e.scope
  := by
  rw [conflict?, ← List.head?_filter]
  split
  · rename_i hdefault
    rw [← List.head?_flatMap, entries, List.filter_flatMap]
    congr 1
    apply List.flatMap_congr
    rintro ⟨c, part⟩ hpart
    rw [OrderedMap.mem_entries_iff] at hpart
    rw [(h.orderly c part hpart).overlapping_eq scope (.inr (.inr hdefault))]
    simp [ContextScope.excludes, hdefault]
  · rename_i name hnamed
    rw [(h.partition _).overlapping_eq scope (.inl rfl), ← h.filter_context, List.filter_filter]
    congr 1
    apply List.filter_congr
    intro e _
    rw [Bool.and_comm, ← beq_eq_decide, hnamed]
    rw [ContextScope.excludes, hnamed]
    rfl

end Store.IsOrderly

end MibAgent
