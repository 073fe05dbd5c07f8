import MibAgent.Proofs.Guards
import MibAgent.Proofs.Performing
import MibAgent.Proofs.Shelves

/-!
# Requests refused and answered

A request is refused when it has too many bindings, else when its context is not supported, else
when it is being answered already. To refuse a request is to do nothing else: none of what the
agent is made of is asked. A request that is not refused leaves no record when it is answered, and
as long as whatever the agent calls does the same, the records of other requests stay as they are.
-/

namespace MibAgent

open AgentM (Keeps Ensures)

variable {σ : Type}

/-! ### Records -/

namespace InFlight

variable {f : InFlight} {now later maturity : Nat} {principal : Octets} {requestId : Int32}

theorem contains_iff :
  f.contains now principal requestId
    ↔ ∃ r ∈ f.records, r.isLive now ∧ r.isOf principal requestId
  := by
  rw [contains, List.any_eq_true]
  simp only [Bool.and_eq_true, and_comm]

theorem start_of_contains (h : f.contains now principal requestId) :
  f.start now maturity principal requestId = (false, f.sweep now)
  := by
  rw [start_eq, if_pos (contains_iff.mp h)]

/-- The records when a request has begun. -/
def begin (f : InFlight) (now maturity : Nat) (principal : Octets) (requestId : Int32) : InFlight :=
  ⟨(f.sweep now).records ++ [⟨principal, requestId, now + maturity⟩]⟩

theorem start_of_free (h : f.contains now principal requestId = false) :
  f.start now maturity principal requestId = (true, f.begin now maturity principal requestId)
  := by
  rw [start_eq, if_neg]
  · rfl
  · rw [← contains_iff, h]
    apply Bool.false_ne_true

theorem isLive_of_le {r : InFlightRecord} (h : now ≤ later) (hlive : r.isLive later) :
  r.isLive now
  := by
  rw [InFlightRecord.isLive, decide_eq_true_iff] at hlive ⊢
  omega

/-- What has expired is removed once. -/
theorem sweep_sweep (h : now ≤ later) :
  (f.sweep now).sweep later = f.sweep later
  := by
  rw [sweep, sweep, sweep, List.filter_filter]
  congr 1
  apply List.filter_congr
  intro r _
  rw [Bool.eq_iff_iff, Bool.and_eq_true, and_iff_left_iff_imp]
  apply isLive_of_le h

theorem sweep_finish :
  (f.finish principal requestId).sweep now = (f.sweep now).finish principal requestId
  := by
  rw [sweep, finish, sweep, finish, List.filter_filter, List.filter_filter]
  simp only [Bool.and_comm]

theorem isOf_eq_false_of_mem_finish {r : InFlightRecord}
    (h : r ∈ (f.finish principal requestId).records) :
  r.isOf principal requestId = false
  := Bool.not_eq_true' _ ▸ (List.mem_filter.mp h).2

theorem contains_sweep :
  (f.sweep now).contains now principal requestId = f.contains now principal requestId
  := by
  rw [Bool.eq_iff_iff, contains_iff, contains_iff]
  simp only [sweep, List.mem_filter, and_assoc, and_self_left]

theorem contains_eq_false_of_forall
    (h : ∀ r ∈ f.records, r.isOf principal requestId = false) :
  f.contains now principal requestId = false
  := by
  rw [contains, List.any_eq_false]
  intro r hr
  rw [h r hr]
  nofun

/-- When a request that has just begun is finished, the unexpired records are left. -/
theorem finish_begin (h : f.contains now principal requestId = false) :
  (f.begin now maturity principal requestId).finish principal requestId = f.sweep now
  := by
  have hown : InFlightRecord.isOf ⟨principal, requestId, now + maturity⟩ principal requestId := by
    rw [InFlightRecord.isOf, beq_self_eq_true, beq_self_eq_true]
    rfl
  rw [begin, finish, List.filter_append, List.filter_singleton, hown]
  change (⟨_ ++ []⟩ : InFlight) = ⟨_⟩
  rw [List.append_nil]
  congr 1
  apply List.filter_eq_self.mpr
  intro r hr
  rw [Bool.not_eq_true', ← Bool.not_eq_true]
  intro hkey
  obtain ⟨hmem, hlive⟩ := List.mem_filter.mp hr
  rw [← Bool.not_eq_true, contains_iff] at h
  apply h
  exact ⟨r, hmem, hlive, hkey⟩

end InFlight

namespace AgentState

/-- No unexpired record of a principal's request exists. -/
def IsFreeFor (principal : Octets) (requestId : Int32) (s : AgentState σ) : Prop :=
  s.inFlight.contains s.now principal requestId = false

/-- Time has not gone back since the state `s`, and of the records that `s` has those which have
not expired since are left. -/
structure Balanced (s t : AgentState σ) : Prop where
  forward : s.now ≤ t.now
  unexpired : t.inFlight.sweep t.now = s.inFlight.sweep t.now

namespace Balanced

variable {s t u : AgentState σ}

theorem refl (s : AgentState σ) :
  s.Balanced s
  := ⟨Nat.le_refl _, rfl⟩

theorem trans (h : s.Balanced t) (h' : t.Balanced u) :
  s.Balanced u
  := by
  use h.forward.trans h'.forward
  calc
    u.inFlight.sweep u.now = t.inFlight.sweep u.now := h'.unexpired
    _ = (t.inFlight.sweep t.now).sweep u.now := (InFlight.sweep_sweep h'.forward).symm
    _ = (s.inFlight.sweep t.now).sweep u.now := by rw [h.unexpired]
    _ = s.inFlight.sweep u.now := InFlight.sweep_sweep h'.forward

/-- No record comes into being for a request that has none. -/
theorem isFreeFor {principal : Octets} {requestId : Int32} (h : s.Balanced t)
    (hfree : s.IsFreeFor principal requestId) :
  t.IsFreeFor principal requestId
  := by
  rw [IsFreeFor, ← Bool.not_eq_true, InFlight.contains_iff] at hfree
  rw [IsFreeFor, ← Bool.not_eq_true, ← InFlight.contains_sweep, h.unexpired,
    InFlight.contains_sweep, InFlight.contains_iff]
  rintro ⟨r, hr, hlive, hkey⟩
  apply hfree
  exact ⟨r, hr, InFlight.isLive_of_le h.forward hlive, hkey⟩

end Balanced

/-- The state in which a request is carried out: its record has been made, and the transaction has
its number. -/
def begun (s : AgentState σ) (config : AgentConfig) (context : RequestContext) (pdu : Pdu) :
    AgentState σ :=
  { s with
    inFlight := s.inFlight.begin s.now config.maturity context.principal pdu.requestId
    lastTransaction := s.lastTransaction + 1 }

/-- The state in which a request has been finished. -/
def finished (s : AgentState σ) (context : RequestContext) (pdu : Pdu) : AgentState σ :=
  { s with inFlight := s.inFlight.finish context.principal pdu.requestId }

/-- A request that is finished leaves the records as they were when it began, if carrying it out
does. -/
theorem Balanced.finished {s u : AgentState σ} {config : AgentConfig} {context : RequestContext}
    {pdu : Pdu} (hfree : s.IsFreeFor context.principal pdu.requestId)
    (h : (s.begun config context pdu).Balanced u) :
  s.Balanced (u.finished context pdu)
  := by
  use h.forward
  calc
    (u.inFlight.finish context.principal pdu.requestId).sweep u.now
      = (u.inFlight.sweep u.now).finish context.principal pdu.requestId := InFlight.sweep_finish
    _ = ((s.begun config context pdu).inFlight.sweep u.now).finish context.principal
          pdu.requestId := by rw [h.unexpired]
    _ = ((s.begun config context pdu).inFlight.finish context.principal pdu.requestId).sweep
          u.now := InFlight.sweep_finish.symm
    _ = (s.inFlight.sweep s.now).sweep u.now := by
          rw [← InFlight.finish_begin hfree]
          rfl
    _ = s.inFlight.sweep u.now := InFlight.sweep_sweep h.forward

end AgentState

/-! ### Contexts -/

/-- A context is not supported when it has a name and is not among those that there are. -/
theorem Registry.supports_eq_false_iff {r : Registry} {c : Context} :
  r.supports c = false
    ↔ ∃ name, c = some name ∧ name ≠ [] ∧ r.contexts.contains name = false
  := by
  cases c with
  | none =>
      constructor
      · nofun
      · rintro ⟨name, ⟨⟩, -⟩
  | some name =>
      rw [supports, Bool.or_eq_false_iff, ← Bool.not_eq_true, List.isEmpty_iff]
      constructor
      · intro h
        exact ⟨name, rfl, h⟩
      · rintro ⟨name, ⟨⟩, h⟩
        exact h

namespace Agent

/-! ### What is called -/

/-- Whatever the agent calls leaves the records of requests being answered as they are, but for
those that expire meanwhile. -/
def SparesRequests (a : Agent σ) : Prop := ∀ s : AgentState σ, a.UpholdsAll s.Balanced

/-! ### Refusing -/

/-- Why a request that arrives in the state `s` is refused. -/
inductive Refusal (config : AgentConfig) (context : RequestContext) (pdu : Pdu)
    (s : AgentState σ) : Failure → Prop where
  | tooMany (h : config.maxBindings < pdu.bindings.length) :
      Refusal config context pdu s (.tooManyBindings pdu.bindings.length config.maxBindings)
  | unknown {name : Octets} (few : pdu.bindings.length ≤ config.maxBindings)
      (named : context.context = some name) (notEmpty : name ≠ [])
      (h : s.registry.contexts.contains name = false) :
      Refusal config context pdu s (.unknownContext name)
  | duplicate (few : pdu.bindings.length ≤ config.maxBindings)
      (supported : s.registry.supports context.context)
      (h : s.inFlight.contains s.now context.principal pdu.requestId) :
      Refusal config context pdu s (.duplicateRequest pdu.requestId)

/-- Answers an operation, serving it in some way unless it is refused. -/
def receive (config : AgentConfig) (context : RequestContext) (pdu : Pdu)
    (serve : AgentM σ Response) : AgentM σ (Except Failure Response) := do
  let state ← get
  if config.maxBindings < pdu.bindings.length then
    return .error (.tooManyBindings pdu.bindings.length config.maxBindings)
  else if !state.registry.supports context.context then
    return .error (.unknownContext (context.context.getD []))
  else
    let (started, inFlight) :=
      state.inFlight.start state.now config.maturity context.principal pdu.requestId
    set { state with inFlight }
    if started then return .ok (← serve) else return .error (.duplicateRequest pdu.requestId)

/-- Serves an operation under a new transaction number. -/
def serve (a : Agent σ) (context : RequestContext) (pdu : Pdu) (maxSize : Nat) :
    AgentM σ Response := do
  let request ← openRequest context pdu maxSize
  let request ← a.perform request
  finish context.principal pdu.requestId
  return request.response

theorem process_eq (a : Agent σ) (context : RequestContext) (pdu : Pdu) (maxSize : Nat) :
  a.process context pdu maxSize = receive a.config context pdu (a.serve context pdu maxSize)
  := by
  rw [process, receive]
  funext s
  change (if _ then _ else if _ then _ else _ : AgentM σ (Except Failure Response)).run s
    = (if _ then _ else if _ then _ else _ : AgentM σ (Except Failure Response)).run s
  split
  · rfl
  · split
    · rfl
    · rfl

section

variable {config : AgentConfig} {context : RequestContext} {pdu : Pdu} {s : AgentState σ}

theorem run_receive (serve : AgentM σ Response) (s : AgentState σ) :
  let begun := s.inFlight.start s.now config.maturity context.principal pdu.requestId
  (receive config context pdu serve).run s
    = if config.maxBindings < pdu.bindings.length then
        (.error (.tooManyBindings pdu.bindings.length config.maxBindings), s)
      else if !s.registry.supports context.context then
        (.error (.unknownContext (context.context.getD [])), s)
      else if begun.1 then
        let served := serve.run { s with inFlight := begun.2 }
        (.ok served.1, served.2)
      else (.error (.duplicateRequest pdu.requestId), { s with inFlight := begun.2 })
  := by
  intro begun
  change (if _ then _ else if _ then _ else _ : AgentM σ (Except Failure Response)).run s = _
  split
  · rfl
  · split
    · rfl
    · change (if begun.1 then _ else _ : AgentM σ (Except Failure Response)).run _ = _
      split
      · rfl
      · rfl

/-- To refuse a request is to do nothing but to remove records that have expired, in whichever way
the request would be served. -/
theorem Refusal.run_receive {failure : Failure} (h : Refusal config context pdu s failure) :
  ∃ inFlight, inFlight.sweep s.now = s.inFlight.sweep s.now
    ∧ ∀ serve, (receive config context pdu serve).run s = (.error failure, { s with inFlight })
  := by
  cases h with
  | tooMany h =>
      use s.inFlight, rfl
      intro serve
      rw [Agent.run_receive, if_pos h]
  | @unknown name few named notEmpty h =>
      use s.inFlight, rfl
      intro serve
      have hsupports := Registry.supports_eq_false_iff.mpr ⟨name, named, notEmpty, h⟩
      rw [Agent.run_receive, if_neg few.not_gt, hsupports, named]
      rfl
  | duplicate few supported h =>
      use s.inFlight.sweep s.now, InFlight.sweep_sweep (Nat.le_refl _)
      intro serve
      rw [Agent.run_receive, if_neg few.not_gt, supported, InFlight.start_of_contains h]
      rfl

/-- A request that is not refused is served after it has been recorded. -/
theorem refusal_or_serves (config : AgentConfig) (context : RequestContext) (pdu : Pdu)
    (s : AgentState σ) :
  (∃ failure, Refusal config context pdu s failure)
    ∨ s.IsFreeFor context.principal pdu.requestId
      ∧ ∀ serve, (receive config context pdu serve).run s
        = let served := serve.run { s with
            inFlight := s.inFlight.begin s.now config.maturity context.principal pdu.requestId }
          (.ok served.1, served.2)
  := by
  by_cases hmany : config.maxBindings < pdu.bindings.length
  · left
    exact ⟨_, .tooMany hmany⟩
  · have hfew := Nat.le_of_not_lt hmany
    cases hsupports : s.registry.supports context.context with
    | false =>
        left
        obtain ⟨name, hname, hne, hunknown⟩ := Registry.supports_eq_false_iff.mp hsupports
        exact ⟨_, .unknown hfew hname hne hunknown⟩
    | true =>
        cases hcontains : s.inFlight.contains s.now context.principal pdu.requestId with
        | true =>
            left
            exact ⟨_, .duplicate hfew hsupports hcontains⟩
        | false =>
            right
            use hcontains
            intro serve
            rw [run_receive, if_neg hmany, hsupports, InFlight.start_of_free hcontains]
            rfl

end

/-! ### Answering -/

/-- What carrying out a request gives, and the state it leaves. -/
abbrev carriedOut (a : Agent σ) (context : RequestContext) (pdu : Pdu) (maxSize : Nat)
    (s : AgentState σ) : Request × AgentState σ :=
  (a.perform (.create context (s.lastTransaction + 1) pdu maxSize)).run
    (s.begun a.config context pdu)

/-- A request is refused, or it is recorded, carried out and finished. -/
theorem refusal_or_answers (a : Agent σ) (context : RequestContext) (pdu : Pdu) (maxSize : Nat)
    (s : AgentState σ) :
  (∃ failure, Refusal a.config context pdu s failure)
    ∨ s.IsFreeFor context.principal pdu.requestId
      ∧ (a.process context pdu maxSize).run s
        = let done := a.carriedOut context pdu maxSize s
          (.ok done.1.response, done.2.finished context pdu)
  := by
  obtain hrefused | ⟨hfree, hserves⟩ := refusal_or_serves a.config context pdu s
  · left
    exact hrefused
  · right
    use hfree
    rw [process_eq, hserves]
    rfl

theorem Refusal.run_process {a : Agent σ} {context : RequestContext} {pdu : Pdu}
    {s : AgentState σ} {failure : Failure} (h : Refusal a.config context pdu s failure)
    (maxSize : Nat) :
  ∃ inFlight, inFlight.sweep s.now = s.inFlight.sweep s.now
    ∧ (a.process context pdu maxSize).run s = (.error failure, { s with inFlight })
  := by
  obtain ⟨inFlight, hsweep, hrun⟩ := h.run_receive
  use inFlight, hsweep
  rw [process_eq, hrun]

/-- Whatever the agent is asked, the records of requests being answered stay as they are, if this
is so of what the agent calls. -/
theorem SparesRequests.keeps_process {a : Agent σ} (h : a.SparesRequests) (s : AgentState σ)
    (context : RequestContext) (pdu : Pdu) (maxSize : Nat) :
  Keeps s.Balanced (a.process context pdu maxSize)
  := by
  constructor
  intro t ht
  apply ht.trans
  obtain ⟨failure, hrefused⟩ | ⟨hfree, hrun⟩ := a.refusal_or_answers context pdu maxSize t
  · obtain ⟨inFlight, hsweep, hrun⟩ := hrefused.run_process maxSize
    rw [hrun]
    exact ⟨Nat.le_refl _, hsweep⟩
  · rw [hrun]
    apply AgentState.Balanced.finished hfree
    apply ((h (t.begun a.config context pdu)).keeps_perform _).keeps
    apply AgentState.Balanced.refl

/-- A request stays without a record while another one is answered. -/
theorem SparesRequests.keeps_isFreeFor {a : Agent σ} (h : a.SparesRequests) (principal : Octets)
    (requestId : Int32) (context : RequestContext) (pdu : Pdu) (maxSize : Nat) :
  Keeps (AgentState.IsFreeFor principal requestId) (a.process context pdu maxSize)
  := by
  constructor
  intro s hfree
  have hbalanced := (h.keeps_process s context pdu maxSize).keeps s (.refl s)
  apply hbalanced.isFreeFor hfree

/-! ### One request after the other -/

/-- A request, and what happens before it arrives. -/
structure Submission (σ : Type) where
  before : AgentM σ Unit
  context : RequestContext
  pdu : Pdu
  maxSize : Nat

/-- Answers requests one after the other. -/
def processAll (a : Agent σ) : List (Submission σ) → AgentM σ (List (Except Failure Response))
  | [] => pure []
  | r :: rest => do
    r.before
    let answer ← a.process r.context r.pdu r.maxSize
    let answers ← a.processAll rest
    return answer :: answers

/-- How a request is met that is not being answered already. -/
inductive Meeting (config : AgentConfig) (context : RequestContext) (pdu : Pdu) :
    Except Failure Response → Prop where
  | answered (response : Response) : Meeting config context pdu (.ok response)
  | tooMany (h : config.maxBindings < pdu.bindings.length) :
      Meeting config context pdu
        (.error (.tooManyBindings pdu.bindings.length config.maxBindings))
  | unknown {name : Octets} (named : context.context = some name) (notEmpty : name ≠ []) :
      Meeting config context pdu (.error (.unknownContext name))

/-- When no record of a request stands in the way, it is not refused for being answered already,
and no record of it is left. -/
theorem ensures_process (a : Agent σ) (context : RequestContext) (pdu : Pdu) (maxSize : Nat) :
  Ensures (AgentState.IsFreeFor context.principal pdu.requestId) (a.process context pdu maxSize)
    (Meeting a.config context pdu)
  := by
  constructor
  intro s hfree
  obtain ⟨failure, hrefused⟩ | ⟨-, hrun⟩ := a.refusal_or_answers context pdu maxSize s
  · obtain ⟨inFlight, hsweep, hrun⟩ := hrefused.run_process maxSize
    rw [hrun]
    constructor
    · change inFlight.contains s.now context.principal pdu.requestId = false
      rw [← InFlight.contains_sweep, hsweep, InFlight.contains_sweep]
      apply hfree
    · cases hrefused with
      | tooMany h => apply Meeting.tooMany h
      | unknown few named notEmpty h => apply Meeting.unknown named notEmpty
      | duplicate few supported h =>
          rw [hfree] at h
          cases h
  · rw [hrun]
    constructor
    · apply InFlight.contains_eq_false_of_forall
      intro r hr
      apply InFlight.isOf_eq_false_of_mem_finish hr
    · apply Meeting.answered

/-- Requests with the same principal and id do not stand in the way of each other when one comes
after the other. -/
theorem ensures_processAll (a : Agent σ) {principal : Octets} {requestId : Int32}
    {rs : List (Submission σ)}
    (hkey : ∀ r ∈ rs, r.context.principal = principal ∧ r.pdu.requestId = requestId)
    (hbefore : ∀ r ∈ rs, Keeps (AgentState.IsFreeFor principal requestId) r.before) :
  Ensures (AgentState.IsFreeFor principal requestId) (a.processAll rs)
    (List.Forall₂ (fun r => Meeting a.config r.context r.pdu) rs)
  := by
  induction rs with
  | nil => apply Ensures.pure .nil
  | cons r rest ih =>
      rw [List.forall_mem_cons] at hkey hbefore
      apply hbefore.1.ensures.bind
      intro _ _
      obtain ⟨⟨rfl, rfl⟩, hkey⟩ := hkey
      apply (a.ensures_process r.context r.pdu r.maxSize).bind
      intro answer hanswer
      apply (ih hkey hbefore.2).bind
      intro answers hanswers
      apply Ensures.pure (.cons hanswer hanswers)

/-- A request is refused when it has too many bindings, else when its context is not supported, else
when an unexpired record of a request with its principal and id exists. A refused request is not
served, in whichever way it would be, and nothing changes but that expired records are removed.
Otherwise the request is recorded, carried out and finished: no record of it is left, and the
unexpired records are those from before, if whatever the agent calls leaves them alone. So requests
with the same principal and id are not refused for each other when one comes after the other. -/
theorem process_refuses_or_answers (a : Agent σ) (context : RequestContext) (pdu : Pdu)
    (maxSize : Nat) (s : AgentState σ) :
  let done := (a.process context pdu maxSize).run s
  (∀ failure, done.1 = .error failure ↔ Refusal a.config context pdu s failure)
    ∧ (∀ failure, Refusal a.config context pdu s failure →
        done.2 = { s with inFlight := done.2.inFlight }
          ∧ done.2.inFlight.sweep s.now = s.inFlight.sweep s.now
          ∧ a.process context pdu maxSize
            = receive a.config context pdu (a.serve context pdu maxSize)
          ∧ ∀ serve, (receive a.config context pdu serve).run s = done)
    ∧ (∀ response, done.1 = .ok response →
        (∀ r ∈ done.2.inFlight.records, r.isOf context.principal pdu.requestId = false)
          ∧ done.2 = (a.carriedOut context pdu maxSize s).2.finished context pdu
          ∧ ((s.begun a.config context pdu).finished context pdu).inFlight
            = s.inFlight.sweep s.now
          ∧ (a.SparesRequests → s.Balanced done.2))
    ∧ ∀ rs : List (Submission σ),
        (∀ r ∈ rs, r.context.principal = context.principal ∧ r.pdu.requestId = pdu.requestId) →
        (∀ r ∈ rs, Keeps (AgentState.IsFreeFor context.principal pdu.requestId) r.before) →
        s.IsFreeFor context.principal pdu.requestId →
        List.Forall₂ (fun r => Meeting a.config r.context r.pdu) rs ((a.processAll rs).run s).1
  := by
  intro done
  have hrefuses : ∀ failure, Refusal a.config context pdu s failure → done.1 = .error failure := by
    intro failure hrefused
    obtain ⟨inFlight, -, hrun⟩ := hrefused.run_process maxSize
    exact congrArg Prod.fst hrun
  refine ⟨?_, ?_, ?_, ?_⟩
  · intro failure
    constructor
    · intro hfailure
      obtain ⟨failure', hrefused⟩ | ⟨-, hrun⟩ := a.refusal_or_answers context pdu maxSize s
      · rw [hrefuses failure' hrefused] at hfailure
        cases hfailure
        exact hrefused
      · rw [congrArg Prod.fst hrun] at hfailure
        cases hfailure
    · apply hrefuses
  · intro failure hrefused
    obtain ⟨inFlight, hsweep, hrun⟩ := hrefused.run_receive
    have hdone : done = (.error failure, { s with inFlight }) := by
      rw [← hrun (a.serve context pdu maxSize), ← process_eq]
    rw [hdone]
    exact ⟨rfl, hsweep, process_eq a context pdu maxSize, hrun⟩
  · intro response hresponse
    obtain ⟨failure, hrefused⟩ | ⟨hfree, hrun⟩ := a.refusal_or_answers context pdu maxSize s
    · rw [hrefuses failure hrefused] at hresponse
      cases hresponse
    · have hdone : done.2 = (a.carriedOut context pdu maxSize s).2.finished context pdu :=
        congrArg Prod.snd hrun
      refine ⟨?_, hdone, InFlight.finish_begin hfree, ?_⟩
      · rw [hdone]
        intro r hr
        apply InFlight.isOf_eq_false_of_mem_finish hr
      · intro hspares
        apply (hspares.keeps_process s context pdu maxSize).keeps s (.refl s)
  · intro rs hkey hbefore hfree
    apply ((a.ensures_processAll hkey hbefore).run s hfree).2

end Agent

namespace Shelves

theorem sparesRequests_agent (shelves : ObjectId → Shelf) (granted : AccessCheck → Bool) :
  (agent shelves granted).SparesRequests
  := by
  intro s
  exact {
    considered := fun _ _ _ => ⟨fun _ hs => hs⟩
    found := fun _ _ _ => ⟨fun _ hs => hs⟩
    rule := nofun
    refresh := nofun
    locks := fun _ _ hs => ⟨hs.forward, hs.unexpired⟩
    access := fun _ => ⟨fun _ hs => hs⟩
    wait := fun _ _ _ => ⟨fun _ hs => hs⟩
    validate := nofun
    apply := nofun
    commit := nofun
    undo := nofun
    cleanup := nofun
    next := fun _ _ _ => ⟨fun _ hs => hs⟩
    get := fun _ _ _ => ⟨fun _ hs => hs⟩ }

/-- A shelf is registered, and three requests are being answered, of which the first one has
expired. -/
def busy : AgentState Unit :=
  { stocked [placed pairs none 1] with inFlight := ⟨[⟨[], 1, 0⟩, ⟨[], 7, 9⟩, ⟨owner, 1, 9⟩]⟩ }

end Shelves

/-- A request that is being answered is refused. Another one is answered, and answered again after a
third one. -/
theorem Agent.busy_refuses_or_answers :
  let a := Shelves.agent Shelves.pairs fun _ => true
  let context := RequestContext.ofVersion .v2c
  let asking := fun requestId => Pdu.asking .get requestId [Shelves.first 1]
  let answer := (a.process context (asking 1) 500).run Shelves.busy
  let refusal := (a.process context (asking 7) 500).run Shelves.busy
  let twice : List (Submission Unit) :=
    [⟨pure (), context, asking 1, 500⟩,
      ⟨discard (a.process context (asking 2) 500), context, asking 1, 20⟩]
  refusal.1 = .error (.duplicateRequest 7)
    ∧ refusal.2 = { Shelves.busy with inFlight := refusal.2.inFlight }
    ∧ answer.1 = .ok ⟨1, .noError, 0, [⟨Shelves.first 1, .integer 5⟩]⟩
    ∧ (∀ r ∈ answer.2.inFlight.records, r.isOf [] 1 = false)
    ∧ Shelves.busy.Balanced answer.2
    ∧ List.Forall₂ (fun r => Meeting a.config r.context r.pdu) twice
        ((a.processAll twice).run Shelves.busy).1
  := by
  intro a context asking answer refusal twice
  obtain ⟨hrefuses, hrefused, -, -⟩ :=
    process_refuses_or_answers a context (asking 7) 500 Shelves.busy
  obtain ⟨-, -, hanswers, hall⟩ :=
    process_refuses_or_answers a context (asking 1) 500 Shelves.busy
  have hspares : a.SparesRequests := Shelves.sparesRequests_agent _ _
  have hduplicate : Refusal a.config context (asking 7) Shelves.busy (.duplicateRequest 7) :=
    .duplicate (by decide) rfl (by decide)
  have hanswer : answer.1 = .ok ⟨1, .noError, 0, [⟨Shelves.first 1, .integer 5⟩]⟩ := by
    decide +kernel
  obtain ⟨hown, -, -, hbalanced⟩ := hanswers _ hanswer
  refine ⟨(hrefuses _).mpr hduplicate, (hrefused _ hduplicate).1, hanswer, hown,
    hbalanced hspares, ?_⟩
  apply hall
  · intro r hr
    obtain rfl | rfl := List.mem_pair.mp hr
    · exact ⟨rfl, rfl⟩
    · exact ⟨rfl, rfl⟩
  · intro r hr
    obtain rfl | rfl := List.mem_pair.mp hr
    · apply Keeps.pure
    · apply Keeps.discard
      apply hspares.keeps_isFreeFor
  · rfl

end MibAgent
