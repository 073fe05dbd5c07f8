import MibAgent.Proofs.Entries
import MibAgent.Proofs.Lookup

/-!
# Differences of scopes

Something can be taken away from a scope when a scope with the same lower end is left, and only
then: either the two do not overlap, or what is taken away starts inside the scope and reaches as
far up. What is left is the difference. An agent narrows a registration to the difference, and where
there is none it changes nothing.
-/

namespace MibAgent

namespace Scope

variable {a b rest : Scope}

theorem startsBefore_iff :
  a.startsBefore b ↔ a.start < b.start
  := by
  rw [startsBefore, start, start, Endpoint.start, Endpoint.start, Cut.beside_lt_beside]
  cases hc : compare b.lower.oid a.lower.oid with
  | lt =>
      rw [compare_lt_iff_lt] at hc
      simp [hc.not_gt, hc.ne']
  | eq =>
      rw [compare_eq_iff_eq] at hc
      simp [hc, Bool.lt_iff]
  | gt =>
      rw [compare_gt_iff_gt] at hc
      simp [hc]

theorem endsWithin_iff :
  a.endsWithin b ↔ a.finish ≤ b.finish
  := by
  rw [endsWithin, finish, finish, ← not_lt]
  cases b.upper with
  | none => simp
  | some other =>
      cases a.upper with
      | none => simp [Endpoint.finish, Cut.beside_lt_top]
      | some mine =>
          rw [Option.elim_some, Option.elim_some, Endpoint.finish, Endpoint.finish,
            Cut.beside_lt_beside]
          dsimp only
          cases hc : compare mine.oid other.oid with
          | lt =>
              rw [compare_lt_iff_lt] at hc
              simp [hc.not_gt, hc.ne']
          | eq =>
              rw [compare_eq_iff_eq] at hc
              cases mine.included <;> simp [hc, Bool.lt_iff]
          | gt =>
              rw [compare_gt_iff_gt] at hc
              simp [hc]

/-- The part of a scope that lies below another one. -/
def below (a b : Scope) : Scope := ⟨a.lower, some ⟨b.lower.oid, !b.lower.included⟩⟩

theorem start_below :
  (a.below b).start = a.start
  := rfl

theorem finish_below :
  (a.below b).finish = b.start
  := rfl

/-- What is left without another scope is the part below it, unless it reaches the lower end or does
not reach the upper one. There is always something left. -/
theorem subtract_eq (a b : Scope) :
  a.subtract b =
    if a.overlaps b then
      if b.start ≤ a.start then .error .coversLower
      else if b.finish < a.finish then .error .wouldSplit
      else .ok (a.below b)
    else .ok a
  := by
  have hbelow : (a.below b).isEmpty = false ↔ a.start < b.start := isEmpty_eq_false_iff
  rw [subtract]
  cases a.overlaps b with
  | false => rfl
  | true =>
      by_cases hstart : a.start < b.start
      · have hend : a.endsWithin b = !decide (b.finish < a.finish) := by
          rw [Bool.eq_iff_iff, endsWithin_iff, ← not_lt, Bool.not_eq_true', decide_eq_false_iff_not]
        rw [startsBefore_iff.mpr hstart, hend, if_neg (not_le.mpr hstart)]
        by_cases hfinish : b.finish < a.finish
        · simp [hfinish]
        · rw [← below]
          simp [hfinish, hbelow.mpr hstart]
      · have hbefore : a.startsBefore b = false := by
          rwa [← Bool.not_eq_true, startsBefore_iff]
        rw [hbefore, if_pos (not_lt.mp hstart)]
        rfl

/-- The scope `rest` is the difference of `a` and `b`. -/
structure IsDifference (a b rest : Scope) : Prop where
  contains : ∀ x, rest.contains x ↔ a.contains x ∧ ¬ b.contains x
  lower : rest.lower = a.lower
  disjoint : rest.overlaps b = false
  inhabited : a.isEmpty = false → rest.isEmpty = false

/-- No OID lies in two scopes that do not overlap. -/
theorem not_contains_of_disjoint {x : Oid} (h : a.overlaps b = false) (hx : a.contains x) :
  ¬ b.contains x
  := by
  intro hx'
  rw [overlaps_of_contains hx hx'] at h
  cases h

theorem isDifference_of_disjoint (h : a.overlaps b = false) :
  a.IsDifference b a
  where
  contains _ := (and_iff_left_of_imp (not_contains_of_disjoint h)).symm
  lower := rfl
  disjoint := h
  inhabited := id

/-- The part below a scope that reaches as far up is the difference. -/
theorem isDifference_below (hstart : a.start < b.start) (hmeet : b.start < a.finish)
    (hfinish : a.finish ≤ b.finish) :
  a.IsDifference b (a.below b)
  where
  contains x := by
    rw [contains_iff, contains_iff, contains_iff, start_below, finish_below, and_assoc]
    apply and_congr_right
    intro _
    constructor
    · intro hbelow
      use hbelow.trans hmeet
      rintro ⟨habove, -⟩
      -- there would be an end of the other scope between the two sides of the OID
      apply lt_irrefl _ (hbelow.trans_le (Cut.le_beside_of_lt habove))
    · rintro ⟨hinside, hnot⟩
      apply Cut.beside_lt_beside_self.trans_le (not_lt.mp _)
      intro habove
      apply hnot ⟨habove, hinside.trans_le hfinish⟩
  lower := rfl
  disjoint := by
    apply overlaps_eq_false
    rw [finish_below]
  inhabited _ := isEmpty_eq_false_iff.mpr hstart

/-- What is left of a scope is the difference. -/
theorem isDifference_of_subtract (h : a.subtract b = .ok rest) :
  a.IsDifference b rest
  := by
  rw [subtract_eq] at h
  split_ifs at h with hoverlaps hstart hfinish
  · cases h
    obtain ⟨-, hmeet, -⟩ := overlaps_iff_lt.mp hoverlaps
    apply isDifference_below (not_le.mp hstart) hmeet (not_lt.mp hfinish)
  · cases h
    apply isDifference_of_disjoint
    rwa [← Bool.not_eq_true]

/-- Something is left of a scope when the other one does not overlap it, or lies at its upper end
with room below. -/
theorem exists_subtract_iff :
  (∃ rest, a.subtract b = .ok rest)
    ↔ a.overlaps b = false ∨ a.start < b.start ∧ a.finish ≤ b.finish
  := by
  rw [subtract_eq]
  split_ifs with hoverlaps hstart hfinish
  · simp [hoverlaps, hstart.not_gt]
  · simp [hoverlaps, hfinish.not_ge]
  · simp [not_le.mp hstart, not_lt.mp hfinish]
  · simp [hoverlaps]

/-- The scope after another one was to be taken away from it. It stays as it is when that is
refused. -/
def subtracted (a b : Scope) : Scope :=
  match a.subtract b with
  | .ok rest => rest
  | .error _ => a

end Scope

/-! ### Narrowing -/

namespace Store.IsOrderly

variable {s : Store} (h : s.IsOrderly)
include h

/-- A registration is narrowed to the difference. Nothing comes of it when the object has no
registration in the context, or when there is no difference. -/
theorem narrow_cases (c : Context) (object : ObjectId) (taken : Scope) :
  (s.narrow c object taken = .ok none
      ∧ ∀ e ∈ s.entries, e.object = object → e.scope.context ≠ c)
    ∨ ∃ earlier e later, s.SplitsAt c object earlier e later
      ∧ ((∃ fault, e.scope.scope.subtract taken = .error fault
          ∧ s.narrow c object taken = .error fault)
        ∨ ∃ rest changed, e.scope.scope.subtract taken = .ok rest
          ∧ s.narrow c object taken = .ok (some changed)
          ∧ changed.entries = earlier ++ { e with scope := ⟨c, rest⟩ } :: later)
  := by
  rw [Store.narrow]
  cases hfind : (s.partition c).toList.findIdx? fun e => e.object == object with
  | none =>
      left
      use rfl
      rintro e he hobject rfl
      have hmem := h.mem_partition_iff.mpr ⟨he, rfl⟩
      have hother := List.findIdx?_eq_none_iff.mp hfind e hmem
      simp [hobject] at hother
  | some i =>
      right
      obtain ⟨hi, hobject, hbefore⟩ := List.findIdx?_eq_some_iff_getElem.mp hfind
      have he := List.getElem?_eq_getElem hi
      have hcontext := (h.partition c).tagged _ (List.getElem_mem hi)
      generalize (s.partition c).toList[i] = e at *
      rw [Array.getElem?_toList] at he
      obtain ⟨earlier, later, hentries, hset, -, hearlier⟩ := h.exists_split he
      refine ⟨earlier, e, later, ⟨hentries, beq_iff_eq.mp hobject, hcontext, ?_⟩, ?_⟩
      · intro d hd hsame hc
        obtain ⟨j, hj, hdj⟩ := hearlier d hd hc
        apply hbefore j hj
        rw [← Array.getElem?_toList] at hdj
        obtain ⟨_, rfl⟩ := List.getElem?_eq_some_iff.mp hdj
        apply beq_iff_eq.mpr hsame
      · simp only [he, hcontext]
        cases hrest : e.scope.scope.subtract taken with
        | error fault =>
            left
            exact ⟨fault, rfl, rfl⟩
        | ok rest =>
            right
            exact ⟨rest, _, rfl, rfl, hset _⟩

end Store.IsOrderly

namespace Agent

variable {σ : Type}

theorem run_narrow (object : ObjectId) (name : Option Octets) (taken : Scope) (s : AgentState σ) :
  (narrow object name taken).run s
    = match s.registry.store.narrow (.ofName name) object taken with
      | .error fault => (.error (.invalidScope fault), s)
      | .ok none => (.ok false, s)
      | .ok (some store) => (.ok true, { s with registry := { s.registry with store } })
  := by
  rw [narrow, AgentM.run_bind]
  change (StateT.run (match s.registry.store.narrow (.ofName name) object taken with
    | .error fault => _ | .ok none => _ | .ok (some store) => _) s) = _
  split
  · rfl
  · rfl
  · rfl

/-- What is taken away from a scope leaves the difference, or else the scope as it is. A
registration is narrowed accordingly: the agent takes something away from the first registration of
an object in a context and changes nothing else, and nothing at all when that is refused or there is
no such registration. -/
theorem difference_or_nothing :
  (∀ a b : Scope,
      (∀ rest, a.subtract b = .ok rest → a.subtracted b = rest ∧ a.IsDifference b rest)
      ∧ (∀ fault, a.subtract b = .error fault → a.subtracted b = a)
      ∧ ((∃ rest, a.subtract b = .ok rest)
          ↔ a.overlaps b = false ∨ a.start < b.start ∧ a.finish ≤ b.finish))
    ∧ ∀ s : AgentState σ, s.IsReachable → ∀ object name taken,
      let c := Context.ofName name
      let outcome := ((narrow object name taken).run s).1
      let t := ((narrow object name taken).run s).2
      (outcome = .ok true → ∃ earlier e later rest,
          s.registry.store.SplitsAt c object earlier e later
          ∧ e.scope.scope.subtract taken = .ok rest ∧ e.scope.scope.IsDifference taken rest
          ∧ t.registry.store.entries = earlier ++ { e with scope := ⟨c, rest⟩ } :: later
          ∧ t = { s with registry := { s.registry with store := t.registry.store } })
        ∧ (∀ failure, outcome = .error failure → ∃ earlier e later fault,
          s.registry.store.SplitsAt c object earlier e later
          ∧ e.scope.scope.subtract taken = .error fault ∧ failure = .invalidScope fault)
        ∧ (outcome = .ok false ↔
          ∀ e ∈ s.registry.store.entries, e.object = object → e.scope.context ≠ c)
        ∧ (outcome ≠ .ok true → t = s)
  := by
  constructor
  · intro a b
    refine ⟨?_, ?_, Scope.exists_subtract_iff⟩
    · intro rest hrest
      rw [Scope.subtracted, hrest]
      exact ⟨rfl, Scope.isDifference_of_subtract hrest⟩
    · intro fault hfault
      rw [Scope.subtracted, hfault]
  · intro s hs object name taken c outcome t
    have hrun : (outcome, t) = _ := run_narrow object name taken s
    rcases hs.isOrderly.narrow_cases c object taken with
      ⟨hnarrow, hnone⟩ | ⟨earlier, e, later, hsplits, hfault | hrest⟩
    · rw [hnarrow] at hrun
      obtain ⟨houtcome, ht⟩ := Prod.mk.inj hrun
      rw [houtcome, ht]
      exact ⟨nofun, nofun, iff_of_true rfl hnone, fun _ => rfl⟩
    · obtain ⟨fault, hsubtract, hnarrow⟩ := hfault
      rw [hnarrow] at hrun
      obtain ⟨houtcome, ht⟩ := Prod.mk.inj hrun
      rw [houtcome, ht]
      have hany : ¬ ∀ e ∈ s.registry.store.entries, e.object = object → e.scope.context ≠ c :=
        fun h => h e hsplits.mem hsplits.registers hsplits.tagged
      refine ⟨nofun, ?_, iff_of_false nofun hany, fun _ => rfl⟩
      rintro _ ⟨⟩
      exact ⟨earlier, e, later, fault, hsplits, hsubtract, rfl⟩
    · obtain ⟨rest, changed, hsubtract, hnarrow, hchanged⟩ := hrest
      rw [hnarrow] at hrun
      obtain ⟨houtcome, ht⟩ := Prod.mk.inj hrun
      rw [houtcome, ht]
      have hany : ¬ ∀ e ∈ s.registry.store.entries, e.object = object → e.scope.context ≠ c :=
        fun h => h e hsplits.mem hsplits.registers hsplits.tagged
      refine ⟨fun _ => ?_, nofun, iff_of_false nofun hany, fun hne => absurd rfl hne⟩
      exact ⟨earlier, e, later, rest, hsplits, hsubtract,
        Scope.isDifference_of_subtract hsubtract, hchanged, rfl⟩

/-- A keeper is narrowed to the difference, while nothing is taken away from its middle. -/
theorem both_narrowed :
  let s := Keepers.both ⟨[1]⟩ ⟨[2]⟩
  let taken := Scope.startingAt (Keepers.instanceOf 5)
  let within := Scope.subtree (Keepers.instanceOf 5)
  (∃ earlier e later rest, s.registry.store.SplitsAt none 1 earlier e later
      ∧ (∀ x, rest.contains x ↔ e.scope.scope.contains x ∧ ¬ taken.contains x)
      ∧ ((narrow 1 none taken).run s).2.registry.store.entries
        = earlier ++ { e with scope := ⟨none, rest⟩ } :: later)
    ∧ ((narrow 1 none within).run s).1 = .error (.invalidScope .wouldSplit)
    ∧ ((narrow 1 none within).run s).2 = s
  := by
  intro s taken within
  have hreachable : s.IsReachable := ⟨_, rfl⟩
  have hdifference := (difference_or_nothing (σ := Contents)).2 s hreachable 1 none
  have hrefused : ((narrow 1 none within).run s).1 = .error (.invalidScope .wouldSplit) := by
    decide +kernel
  refine ⟨?_, hrefused, ?_⟩
  · obtain ⟨earlier, e, later, rest, hsplits, -, hrest, hentries, -⟩ :=
      (hdifference taken).1 (by decide +kernel)
    exact ⟨earlier, e, later, rest, hsplits, hrest.contains, hentries⟩
  · apply (hdifference within).2.2.2
    rw [hrefused]
    nofun

end Agent

end MibAgent
