import MibAgent.Proofs.Entries
import MibAgent.Proofs.Lookup

/-!
# Conflicts of registrations

An object is registered unless the scope that it declares is empty, or excluded by a registration
that there is already: by any one that overlaps it, if the object is to be registered in the default
context, and else by one of the same context. The first such registration in the list of all is
reported. A refused registration leaves everything as it was, and another one adds itself to the
list and makes its context supported.
-/

namespace MibAgent

/-! ### Finding a place -/

theorem bisect_le (p : Nat → Bool) {low high : Nat} (h : low ≤ high) :
  bisect p low high ≤ high
  := by
  fun_induction bisect p low high with
  | case1 low high hlt middle hp ih => apply ih (by omega)
  | case2 low high hlt middle hp ih => apply (ih (by omega)).trans (by omega)
  | case3 low high hlt => apply h

namespace Partition

variable (part : Partition)

theorem front_le (p : Entry → Bool) :
  part.front p ≤ part.size
  := bisect_le _ (Nat.zero_le _)

/-- A registration is put somewhere between the others. -/
theorem exists_place (e : Entry) :
  ∃ earlier later, part.toList = earlier ++ later ∧ (part.place e).toList = earlier ++ e :: later
  := by
  let place := part.front fun other => other.scope.order e.scope == .lt
  have hplace : place ≤ part.size := part.front_le _
  have hlength : place = (part.toList.take place).length := by
    rw [List.length_take, Array.length_toList, min_eq_left hplace]
  use part.toList.take place, part.toList.drop place
  use (List.take_append_drop _ _).symm
  rw [Partition.place, Array.insertIdxIfInBounds, dif_pos hplace, Array.toList_insertIdx]
  conv_lhs => rw [← List.take_append_drop place part.toList]
  conv_lhs =>
    arg 2
    change place
    rw [hlength]
  apply insertIdx_length

end Partition

namespace Store.IsOrderly

variable {s : Store} (h : s.IsOrderly)
include h

/-- A registration is refused when its scope is empty, and else when there is one that it excludes,
of which the first is reported. -/
theorem register_eq (e : Entry) :
  s.register e =
    if e.scope.scope.isEmpty then .error (.invalidScope .emptyRegistration)
    else match s.entries.find? fun d => e.scope.excludes d.scope with
      | some d => .error (.duplicateRegistration e.scope d.scope)
      | none => .ok (s.withPartition e.scope.context ((s.partition e.scope.context).place e))
  := by
  rw [← h.conflict?_eq]
  rfl

/-- A registration comes between those that there are. -/
theorem entries_register {e : Entry} {changed : Store} (hregister : s.register e = .ok changed) :
  ∃ earlier later, s.entries = earlier ++ later ∧ changed.entries = earlier ++ e :: later
  := by
  obtain ⟨before, after, hentries, hwith, -⟩ := h.exists_around e.scope.context
  obtain ⟨earlier, later, hpart, hplace⟩ := (s.partition e.scope.context).exists_place e
  rw [register_eq h] at hregister
  split at hregister
  · cases hregister
  · split at hregister
    · cases hregister
    · cases hregister
      use before ++ earlier, later ++ after
      rw [hentries, hwith, hpart, hplace]
      simp

end Store.IsOrderly

/-! ### Registering -/

/-- A context that is added is supported, and all others are when they were. -/
theorem Registry.supports_insert (r : Registry) (name : Octets) (c : Context) :
  Registry.supports { r with contexts := r.contexts.insert name () } c
    ↔ r.supports c ∨ c = some name
  := by
  cases c with
  | none => simp [supports]
  | some other =>
      rw [supports, supports, OrderedMap.contains, OrderedMap.contains, OrderedMap.get?_insert]
      by_cases hname : other = name
      · simp [hname]
      · simp [hname]

namespace Agent

open AgentM (Keeps)

variable {σ : Type} (a : Agent σ)

/-- The listeners of contexts are told about a context in which something was registered, if it
was not supported before. -/
theorem run_addContext (name : Octets) (s : AgentState σ) :
  (a.addContext name).run s =
    if s.registry.supports (some name) then (false, s)
    else (true, ((a.announceContext name .added).run { s with
      registry := { s.registry with contexts := s.registry.contexts.insert name () } }).2)
  := by
  rw [addContext, AgentM.run_bind]
  change StateT.run (if s.registry.supports (some name) then _ else _) s = _
  split
  · rfl
  · rfl

variable {a}

/-- An object that declares a scope is registered for it if the store of registrations takes it. Then
its context is added. -/
theorem run_register {s t : AgentState σ} {object : ObjectId} {scope : Scope}
    (hscope : (a.object object).scope.run s = (scope, t)) (name : Option Octets) :
  let declared := ContextScope.inContext name scope
  (a.register object name).run s =
    match t.registry.store.register ⟨declared, object⟩ with
    | .error failure => (.error failure, t)
    | .ok store =>
      let u : AgentState σ := { t with registry := { t.registry with store } }
      (.ok (), declared.context.elim u fun name => ((a.addContext name).run u).2)
  := by
  intro declared
  rw [register, AgentM.run_bind, hscope, AgentM.run_bind]
  change StateT.run (match t.registry.store.register ⟨declared, object⟩ with
    | .error failure => _
    | .ok store => AgentM.setStore store >>= fun _ => _) t = _
  split
  · rfl
  · cases declared.context with
    | none => rfl
    | some name => rfl

/-- Adding a context makes it supported and does nothing else, except that the listeners of contexts
are told if it was not supported before. -/
theorem exists_addContext (a : Agent σ) (c : Context) (s : AgentState σ) :
  let final := c.elim s fun name => ((a.addContext name).run s).2
  ∃ contexts, let u : AgentState σ := { s with registry := { s.registry with contexts } }
    (∀ d, u.registry.supports d ↔ s.registry.supports d ∨ d = c)
      ∧ (final = u ∨ ∃ name, c = some name ∧ ¬ s.registry.supports c
        ∧ final = ((a.announceContext name .added).run u).2)
  := by
  intro final
  by_cases hsupports : s.registry.supports c
  · use s.registry.contexts
    constructor
    · intro d
      rw [iff_self_or]
      rintro rfl
      apply hsupports
    · left
      cases c with
      | none => rfl
      | some name =>
          change ((a.addContext name).run s).2 = s
          rw [run_addContext, if_pos hsupports]
  · cases c with
    | none => apply absurd rfl hsupports
    | some name =>
        use s.registry.contexts.insert name ()
        constructor
        · apply Registry.supports_insert
        · right
          refine ⟨name, rfl, hsupports, ?_⟩
          change ((a.addContext name).run s).2 = _
          rw [run_addContext, if_neg hsupports]

/-- An object is registered unless the scope that it declares is empty, or there is a registration
that excludes this one: then the first such one in the list of all registrations is reported.
Nothing changes when the registration is refused. Otherwise it comes between those that there are,
which stay as they are, and its context becomes supported; the listeners of contexts are told if it
was not supported before. -/
theorem register_decides {s t : AgentState σ} {object : ObjectId} {scope : Scope}
    (hscope : (a.object object).scope.run s = (scope, t)) (ht : t.IsReachable)
    (name : Option Octets) :
  let declared := ContextScope.inContext name scope
  let entries := t.registry.store.entries
  let outcome := ((a.register object name).run s).1
  let final := ((a.register object name).run s).2
  outcome
      = (if scope.isEmpty then .error (.invalidScope .emptyRegistration)
        else match entries.find? fun e => declared.excludes e.scope with
          | some existing => .error (.duplicateRegistration declared existing.scope)
          | none => .ok ())
    ∧ (outcome ≠ .ok () → final = t)
    ∧ (outcome = .ok () → ∃ earlier later store contexts,
      let u : AgentState σ := { t with registry := { t.registry with store, contexts } }
      entries = earlier ++ later ∧ store.entries = earlier ++ ⟨declared, object⟩ :: later
      ∧ (∀ c, u.registry.supports c ↔ t.registry.supports c ∨ c = declared.context)
      ∧ (final = u ∨ ∃ name, declared.context = some name
          ∧ ¬ t.registry.supports declared.context
          ∧ final = ((a.announceContext name .added).run u).2)
      ∧ ((∀ listener name,
          Keeps (·.registry = u.registry) (a.contextListener listener name .added)) →
        final.registry = u.registry))
  := by
  intro declared entries outcome final
  have horderly := ht.isOrderly
  have hrun : (outcome, final) = _ := run_register hscope name
  have hregister := horderly.register_eq ⟨declared, object⟩
  dsimp only at hregister
  change _ = if scope.isEmpty then _ else _ at hregister
  split_ifs at hregister ⊢ with hempty
  · rw [hregister] at hrun
    obtain ⟨houtcome, hfinal⟩ := Prod.mk.inj hrun
    rw [houtcome, hfinal]
    exact ⟨rfl, fun _ => rfl, nofun⟩
  · split at hregister
    · rename_i existing hexisting
      rw [hregister] at hrun
      obtain ⟨houtcome, hfinal⟩ := Prod.mk.inj hrun
      rw [houtcome, hfinal, hexisting]
      exact ⟨rfl, fun _ => rfl, nofun⟩
    · rename_i hnone
      rw [hregister] at hrun
      obtain ⟨houtcome, hfinal⟩ := Prod.mk.inj hrun
      rw [houtcome, hnone]
      refine ⟨rfl, fun hne => absurd rfl hne, fun _ => ?_⟩
      obtain ⟨earlier, later, hentries, hchanged⟩ := horderly.entries_register hregister
      obtain ⟨contexts, hsupports, htold⟩ := a.exists_addContext declared.context
        { t with registry := { t.registry with store := _ } }
      rw [← hfinal] at htold
      refine ⟨earlier, later, _, contexts, hentries, hchanged, hsupports, htold, ?_⟩
      intro hquiet
      rcases htold with hfinal | ⟨name, -, -, hfinal⟩
      · rw [hfinal]
      · rw [hfinal]
        apply (keeps_announceContext fun listener => hquiet listener name).keeps
        rfl

/-- A keeper that is registered in a named context cannot be registered in the default one too. In
another named context it can, which becomes supported. -/
theorem both_decide :
  let a := Keepers.agent {}
  let s := Keepers.both ⟨[1]⟩ ⟨[2]⟩
  let other : Octets := [98]
  (a.register 2 none).run s
      = (.error (.duplicateRegistration ⟨none, .subtree ⟨[2]⟩⟩ (Keepers.owned ⟨[2]⟩).scope), s)
    ∧ ((a.register 2 (some other)).run s).1 = .ok ()
    ∧ ((a.register 2 (some other)).run s).2.registry.supports (some other)
  := by
  intro a s other
  have hscope : (a.object 2).scope.run s = (.subtree ⟨[2]⟩, s) := rfl
  have hreachable : s.IsReachable := ⟨_, rfl⟩
  obtain ⟨hrefused, hunchanged, -⟩ := register_decides hscope hreachable none
  obtain ⟨hregistered, -, hadded⟩ := register_decides hscope hreachable (some other)
  have hok : ((a.register 2 (some other)).run s).1 = .ok () := hregistered.trans (by decide +kernel)
  refine ⟨?_, hok, ?_⟩
  · apply Prod.ext (hrefused.trans (by decide +kernel))
    apply hunchanged
    rw [hrefused]
    decide +kernel
  · obtain ⟨_, _, _, _, -, -, hsupports, -, hfinal⟩ := hadded hok
    rw [hfinal fun _ _ => ⟨fun _ hs => hs⟩]
    apply (hsupports (some other)).mpr (.inr rfl)

end Agent

end MibAgent
