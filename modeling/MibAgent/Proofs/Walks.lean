import MibAgent.Proofs.Shelves

/-!
# Walks

Who asks for what comes after an OID, and again and again for what comes after the answer, walks
through the instances of a context. The walk comes upon each instance that is shown there, in order,
and then stays at the end of the view.
-/

namespace MibAgent

open Agent (NextOutcome)

variable {σ : Type}

/-- Asks for what comes after an OID, and so on for what comes after each answer, at most so many
times. A request that fails ends the walk. -/
def Agent.walk (a : Agent σ) (context : RequestContext) (maxSize : Nat) :
    Nat → Oid → AgentM σ (List Binding)
  | 0, _ => pure []
  | steps + 1, x => do
    match (← a.ask .getNext context maxSize x).answer? with
    | none => return []
    | some b => return b :: (← a.walk context maxSize steps b.oid)

/-- The OID that a walk has come to. -/
def lastOid : Oid → List Binding → Oid
  | x, [] => x
  | _, b :: rest => lastOid b.oid rest

namespace Agent

variable {a : Agent σ} {P : σ → Prop} {instances : ObjectId → OrderedMap Oid Value}
  {granted : AccessCheck → Bool} {store : Store}

/-- A walk goes on from the answer to its first request. -/
theorem run_walk_succ {context : RequestContext} {maxSize steps : Nat} {x : Oid}
    {s : AgentState σ} {b : Binding}
    (h : ((a.ask .getNext context maxSize x).run s).1.answer? = some b) :
  ((a.walk context maxSize (steps + 1) x).run s).1
    = b :: ((a.walk context maxSize steps b.oid).run
      ((a.ask .getNext context maxSize x).run s).2).1
  := by
  rw [walk, AgentM.run_bind, h]
  rfl

namespace Offers

variable (h : a.Offers P instances granted) (context : RequestContext) (maxSize : Nat)
  (hstore : store.IsReachable) (hencloses : store.Encloses (.ofName context.context) instances)
  (hlimit : store.extent (.ofName context.context) instances < a.searchLimit)
include h hstore hencloses hlimit

/-- A walk that has come to where nothing is shown any more stays there. -/
theorem walk_end {x : Oid} (hend : ∀ y v,
      (context.outlook store instances granted).Shows instances y v →
        (Scope.after x).contains y = false)
    (steps : Nat) {s : AgentState σ} (hs : s.IsIdle P store) :
  ((a.walk context maxSize steps x).run s).1 = List.replicate steps ⟨x, .endOfMibView⟩
  := by
  induction steps generalizing s with
  | zero => rfl
  | succ steps ih =>
      obtain ⟨hidle, o, hleads, hanswer⟩ :=
        h.ask_leads context maxSize x hstore hencloses hlimit hs
      rw [hleads.answer_eq (.endOfView hend)] at hanswer
      rw [run_walk_succ hanswer, ih hidle, List.replicate_succ]

/-- A walk comes upon what is shown after an OID, in order, and then stays where it is. -/
theorem exists_walk (x : Oid) {s : AgentState σ} (hs : s.IsIdle P store) :
  ∃ answers : List Binding, answers.Pairwise (·.oid < ·.oid)
    ∧ (∀ b, b ∈ answers ↔
        x < b.oid ∧ (context.outlook store instances granted).Shows instances b.oid b.value)
    ∧ ∀ t, t.IsIdle P store → ∀ extra,
      ((a.walk context maxSize (answers.length + extra) x).run t).1
        = answers ++ List.replicate extra ⟨lastOid x answers, .endOfMibView⟩
  := by
  -- every answer leaves fewer registrations to be visited
  induction hweight : (context.outlook store instances granted).weight instances (.after x)
    using Nat.strong_induction_on generalizing x with
  | _ weight ih =>
      obtain ⟨-, o, hleads, -⟩ := h.ask_leads context maxSize x hstore hencloses hlimit hs
      cases hleads with
      | endOfView nothing =>
          refine ⟨[], .nil, ?_, ?_⟩
          · intro b
            simp only [List.not_mem_nil, false_iff, not_and]
            intro hlt hshows
            have hout := nothing b.oid b.value hshows
            rw [Scope.contains_after_iff.mpr hlt] at hout
            cases hout
          · intro t ht extra
            rw [List.length_nil, Nat.zero_add, List.nil_append]
            apply h.walk_end context maxSize hstore hencloses hlimit nothing extra ht
      | @found e query b shows target inside least =>
          have hlt : x < b.oid := Scope.contains_after_iff.mp inside
          have hless := Circumstances.weight_after_lt hstore.isOrderly shows hlt
          rw [hweight] at hless
          obtain ⟨answers, hascending, hmem, hwalk⟩ := ih _ hless b.oid rfl
          refine ⟨b :: answers, ?_, ?_, ?_⟩
          · apply List.pairwise_cons.mpr ⟨?_, hascending⟩
            intro b' hb'
            apply ((hmem b').mp hb').1
          · intro b'
            rw [List.mem_cons, hmem]
            constructor
            · rintro (rfl | ⟨hlt', hshows'⟩)
              · exact ⟨hlt, shows⟩
              · exact ⟨hlt.trans hlt', hshows'⟩
            · rintro ⟨hlt', hshows'⟩
              rcases (least _ _ hshows' (Scope.contains_after_iff.mpr hlt')).eq_or_lt with heq | hlt
              · left
                obtain ⟨y, v⟩ := b
                obtain ⟨y', v'⟩ := b'
                cases heq
                cases shows.eq_value hshows'
                rfl
              · right
                exact ⟨hlt, hshows'⟩
          · intro t ht extra
            obtain ⟨hidle, o', hleads', hanswer⟩ :=
              h.ask_leads context maxSize x hstore hencloses hlimit ht
            have hfound : (context.outlook store instances granted).Leads instances (.after x)
                (.found e query b) := .found shows target inside least
            rw [hleads'.answer_eq hfound] at hanswer
            rw [List.length_cons, Nat.add_right_comm, run_walk_succ hanswer, hwalk _ hidle]
            rfl

end Offers

/-- A walk of the default context comes upon every instance after an OID that the requester may
read, in order, and then stays at the end of the view. -/
theorem walk_complete (h : a.Offers P instances granted) {context : RequestContext}
    (hversion : context.version.isLegacy = false)
    (hcontext : Context.ofName context.context = none) {s : AgentState σ}
    (hreachable : s.IsReachable) (hs : P s.surroundings)
    (hunlocked : s.registry.locks = .empty) (hencloses : s.registry.store.Encloses none instances)
    (hlimit : s.registry.store.extent none instances < a.searchLimit) (maxSize : Nat) (x : Oid) :
  ∃ answers : List Binding, answers.Pairwise (·.oid < ·.oid)
    ∧ (∀ b, b ∈ answers ↔ x < b.oid ∧ granted (context.check .read b.oid)
        ∧ ∃ e ∈ (s.registry.store.partition none).toList,
          (instances e.object).get? b.oid = some b.value)
    ∧ ∀ extra, ((a.walk context maxSize (answers.length + extra) x).run s).1
        = answers ++ List.replicate extra ⟨lastOid x answers, .endOfMibView⟩
  := by
  have hidle : s.IsIdle P s.registry.store := ⟨⟨hs, rfl⟩, hunlocked⟩
  rw [← hcontext] at hencloses hlimit
  obtain ⟨answers, hascending, hmem, hwalk⟩ :=
    h.exists_walk context maxSize hreachable hencloses hlimit x hidle
  refine ⟨answers, hascending, ?_, hwalk s hidle⟩
  intro b
  rw [hcontext] at hencloses
  have hshows : (context.outlook s.registry.store instances granted).Shows instances b.oid b.value
      ↔ _ :=
    Circumstances.shows_iff_of_default hreachable.isOrderly hcontext hencloses
  rw [hmem, hshows, RequestContext.allowed_outlook hversion]
  rfl

/-- A walk through two shelves passes over the instance that may not be read. -/
theorem pairs_walk :
  let context := RequestContext.ofVersion .v2c
  let granted := fun check : AccessCheck => check.oid != Shelves.second 1
  let s := Shelves.stocked [Shelves.placed Shelves.pairs none 1, Shelves.placed Shelves.pairs none 2]
  ∃ answers : List Binding, ⟨Shelves.second 2, .integer 6⟩ ∈ answers
    ∧ ⟨Shelves.second 1, .integer 6⟩ ∉ answers
    ∧ (((Shelves.agent Shelves.pairs granted).walk context 100 (answers.length + 3) ⟨[1, 1]⟩).run
        s).1
      = answers ++ List.replicate 3 ⟨lastOid ⟨[1, 1]⟩ answers, .endOfMibView⟩
  := by
  intro context granted s
  have hversion : context.version.isLegacy = false := rfl
  have hreachable : s.IsReachable := Shelves.isReachable_stocked _
  obtain ⟨answers, -, hmem, hwalk⟩ := walk_complete (Shelves.offers_agent Shelves.pairs granted)
    hversion rfl hreachable trivial rfl (Store.encloses_iff.mpr (by decide +kernel))
    (by decide +kernel) 100 ⟨[1, 1]⟩
  refine ⟨answers, ?_, ?_, hwalk 3⟩
  · rw [hmem]
    decide +kernel
  · rw [hmem]
    decide +kernel

end Agent

end MibAgent
