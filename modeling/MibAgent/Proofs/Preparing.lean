import MibAgent.Proofs.Observation
import Mathlib.Tactic.Use

/-!
# Preparing variables

A write first prepares its variables one after the other. Every variable meets a fate: it is
refused before its object is asked, or its object finds the value invalid, or valid, and takes
the value on or fails to, if it is asked to. The fate tells which calls were made and what became
of the variable.
-/

namespace MibAgent

variable {σ : Type}

/-- How a variable fares when it is prepared. -/
inductive Fate where
  /-- The object is not asked, if one is found at all. -/
  | refused (target : Option Entry) (status : Status)
  /-- The object finds the value invalid. -/
  | invalid (target : Entry) (result : WriteResult)
  /-- The object finds the value valid, and is not asked to take it on. -/
  | valid (target : Entry)
  /-- The object finds the value valid, but fails to take it on. -/
  | unapplied (target : Entry) (result : WriteResult) (stored : Option Value)
  /-- The object takes the value on. -/
  | applied (target : Entry) (stored : Option Value)
deriving DecidableEq

namespace Fate

/-- Whether the variable failed. -/
def isFailure : Fate → Bool
  | valid _ | applied _ _ => false
  | _ => true

/-- Whether the object found the value valid. -/
def isValid : Fate → Bool
  | valid _ | unapplied _ _ _ | applied _ _ => true
  | _ => false

/-- Whether the object was asked to take the value on. -/
def isOffered : Fate → Bool
  | unapplied _ _ _ | applied _ _ => true
  | _ => false

/-- Whether the object took the value on. -/
def isApplied : Fate → Bool
  | applied _ _ => true
  | _ => false

/-- The registration that was found. -/
def target? : Fate → Option Entry
  | refused target _ => target
  | invalid target _ | valid target | unapplied target _ _ | applied target _ => some target

/-- How far the write has come with the variable. -/
def stage : Fate → WriteStage
  | refused _ _ => .untouched
  | invalid _ _ => .locked
  | valid _ | unapplied _ _ _ => .validated
  | applied _ _ => .applied

/-- The registration of an object that was asked. -/
def receiver? : Fate → Option Entry
  | refused _ _ => none
  | invalid target _ | valid target | unapplied target _ _ | applied target _ => some target

theorem isValid_of_isApplied {fate : Fate} (h : fate.isApplied) :
  fate.isValid
  := by
  cases fate with
  | applied _ _ => rfl
  | _ => cases h

theorem exists_receiver {fate : Fate} (h : fate.isValid) :
  ∃ target, fate.receiver? = some target ∧ fate.target? = some target
  := by
  cases fate with
  | refused _ _ | invalid _ _ => cases h
  | _ => exact ⟨_, rfl, rfl⟩

theorem stage_of_target?_eq_none {fate : Fate} (h : fate.target? = none) :
  fate.stage = .untouched
  := by
  cases fate with
  | refused _ _ => rfl
  | _ => cases h

theorem stage_iff_isValid (fate : Fate) :
  (fate.stage = .validated ∨ fate.stage = .applied) ↔ fate.isValid
  := by
  cases fate with
  | _ => simp [stage, isValid]

theorem isFailure_of_isApplied {fate : Fate} (h : fate.isApplied) :
  fate.isFailure = false
  := by
  cases fate with
  | applied _ _ => rfl
  | _ => cases h

theorem eq_applied {fate : Fate} (h : fate.isApplied) :
  ∃ target stored, fate = .applied target stored
  := by
  cases fate with
  | applied target stored => exact ⟨target, stored, rfl⟩
  | _ => cases h

end Fate

/-- The variable with the registration found for it. -/
def Variable.toTarget (v : Variable) (context : RequestContext) (target : Entry) : Variable :=
  { v with query := some (Agent.queryFor context v true), target := some target }

/-- Nothing was done about the variable yet. -/
structure Variable.IsFresh (v : Variable) : Prop where
  stage : v.stage = .untouched
  target : v.target = none
  status : v.status = .noError

/-- A variable of a write, and how it fared when it was prepared. -/
structure Preparation where
  asked : Variable
  fate : Fate
deriving DecidableEq

namespace Preparation

/-- The calls made to prepare the variable. -/
def calls (p : Preparation) : List Call :=
  match p.fate with
  | .refused _ _ => []
  | .invalid target result => [.validate target.object p.asked.binding result]
  | .valid target => [.validate target.object p.asked.binding .ok]
  | .unapplied target result stored =>
    [.validate target.object p.asked.binding .ok,
      .apply target.object p.asked.binding result stored]
  | .applied target stored =>
    [.validate target.object p.asked.binding .ok,
      .apply target.object p.asked.binding .ok stored]

/-- The variable after it was prepared. -/
def prepared (p : Preparation) (context : RequestContext) : Variable :=
  match p.fate with
  | .refused none status => p.asked.fail status
  | .refused (some target) status => (p.asked.toTarget context target).fail status
  | .invalid target result =>
    { p.asked.toTarget context target with stage := .locked }.fail result.toStatus
  | .valid target => { p.asked.toTarget context target with stage := .validated }
  | .unapplied target result stored =>
    { p.asked.toTarget context target with undo := stored, stage := .validated }.fail
      result.toStatus
  | .applied target stored =>
    { p.asked.toTarget context target with undo := stored, stage := .applied }

theorem prepared_binding (p : Preparation) (context : RequestContext) :
  (p.prepared context).binding = p.asked.binding
  := by
  obtain ⟨v, fate⟩ := p
  cases fate with
  | refused target _ => cases target <;> rfl
  | _ => rfl

theorem prepared_target {p : Preparation} (h : p.asked.IsFresh) (context : RequestContext) :
  (p.prepared context).target = p.fate.target?
  := by
  obtain ⟨v, fate⟩ := p
  cases fate with
  | refused target _ =>
      cases target with
      | none => apply h.target
      | some target => rfl
  | _ => rfl

theorem prepared_stage {p : Preparation} (h : p.asked.IsFresh) (context : RequestContext) :
  (p.prepared context).stage = p.fate.stage
  := by
  obtain ⟨v, fate⟩ := p
  cases fate with
  | refused target _ => cases target <;> apply h.stage
  | _ => rfl

end Preparation

namespace Agent

variable (a : Agent σ) (context : RequestContext)

/-- In the state `s`, access to a variable is granted, an object is found for it that can be
written, and the lock on the object is had; the state is then `t`. -/
inductive Admits (v : Variable) (s : AgentState σ) (target : Entry) (writable : Writable σ)
    (t : AgentState σ) : Prop where
  | intro {s₁ s₂ : AgentState σ}
    (granted : (a.access (context.check .write v.binding.oid)).run s = (true, s₁))
    (found : (a.find (queryFor context v true)).run s₁ = (some target, s₂))
    (canWrite : (a.object target.object).writable = some writable)
    (locked : (a.lockFor context target.object).run s₂ = (true, t))

/-- In the state `s`, a variable does not get as far as being put to an object, and gets a
status for that; the state is then `t`. -/
inductive Refuses (v : Variable) (s : AgentState σ) :
    Option Entry → Status → AgentState σ → Prop where
  | denied {t : AgentState σ}
    (denied : (a.access (context.check .write v.binding.oid)).run s = (false, t)) :
    Refuses v s none .noAccess t
  | unserved {s₁ t : AgentState σ}
    (granted : (a.access (context.check .write v.binding.oid)).run s = (true, s₁))
    (unserved : (a.find (queryFor context v true)).run s₁ = (none, t)) :
    Refuses v s none .notWritable t
  | unwritable {s₁ t : AgentState σ} {target : Entry}
    (granted : (a.access (context.check .write v.binding.oid)).run s = (true, s₁))
    (found : (a.find (queryFor context v true)).run s₁ = (some target, t))
    (unwritable : (a.object target.object).writable = none) :
    Refuses v s (some target) .notWritable t
  | unavailable {s₁ s₂ t : AgentState σ} {target : Entry} {writable : Writable σ}
    (granted : (a.access (context.check .write v.binding.oid)).run s = (true, s₁))
    (found : (a.find (queryFor context v true)).run s₁ = (some target, s₂))
    (canWrite : (a.object target.object).writable = some writable)
    (unavailable : (a.lockFor context target.object).run s₂ = (false, t)) :
    Refuses v s (some target) .resourceUnavailable t

/-- Prepared in the state `s`, with `healthy` telling whether no variable failed before, a
variable meets a fate; the state is then `t`. -/
inductive Meets (healthy : Bool) (v : Variable) (s : AgentState σ) :
    Fate → AgentState σ → Prop where
  | refused {target : Option Entry} {status : Status} {t : AgentState σ}
    (refused : a.Refuses context v s target status t) :
    Meets healthy v s (.refused target status) t
  | invalid {target : Entry} {writable : Writable σ} {result : WriteResult}
    {s₁ t : AgentState σ}
    (admitted : a.Admits context v s target writable s₁)
    (validated : (writable.validate context v.binding).run s₁ = (result, t))
    (failed : result ≠ .ok) :
    Meets healthy v s (.invalid target result) t
  | valid {target : Entry} {writable : Writable σ} {s₁ t : AgentState σ}
    (admitted : a.Admits context v s target writable s₁)
    (validated : (writable.validate context v.binding).run s₁ = (.ok, t))
    (unsound : healthy = false) :
    Meets healthy v s (.valid target) t
  | unapplied {target : Entry} {writable : Writable σ} {result : WriteResult}
    {stored : Option Value} {s₁ s₂ t : AgentState σ}
    (admitted : a.Admits context v s target writable s₁)
    (validated : (writable.validate context v.binding).run s₁ = (.ok, s₂))
    (sound : healthy = true)
    (applied : (writable.apply context v.binding v.undo).run s₂ = ((result, stored), t))
    (failed : result ≠ .ok) :
    Meets healthy v s (.unapplied target result stored) t
  | applied {target : Entry} {writable : Writable σ} {stored : Option Value}
    {s₁ s₂ t : AgentState σ}
    (admitted : a.Admits context v s target writable s₁)
    (validated : (writable.validate context v.binding).run s₁ = (.ok, s₂))
    (sound : healthy = true)
    (applied : (writable.apply context v.binding v.undo).run s₂ = ((.ok, stored), t)) :
    Meets healthy v s (.applied target stored) t

/-- Prepared one after the other from the state `s` on, with `healthy` telling whether no
variable failed before, variables meet their fates; the state is then `t`. -/
inductive MeetAll : Bool → AgentState σ → List Preparation → AgentState σ → Prop where
  | nil {healthy : Bool} {s : AgentState σ} : MeetAll healthy s [] s
  | cons {healthy : Bool} {s s₁ t : AgentState σ} {p : Preparation} {rest : List Preparation}
    (first : a.Meets context healthy p.asked s p.fate s₁)
    (others : MeetAll (healthy && !p.fate.isFailure) s₁ rest t) :
    MeetAll healthy s (p :: rest) t

end Agent

/-! ### Calls that are recorded -/

/-- The phases of a write, with a log of the calls. -/
def Writable.recorded (w : Writable σ) (object : ObjectId) : Writable (Logged σ Call) :=
  w.observed (fun _ call => call) object

theorem Agent.recorded_writable (a : Agent σ) (object : ObjectId) :
  (a.recorded.object object).writable = (a.object object).writable.map (·.recorded object)
  := rfl

namespace Writable

variable {w : Writable σ} {context : RequestContext} {b : Binding} {s t : AgentState σ}
variable {given stored : Option Value} {result : WriteResult} (object : ObjectId)

theorem validate_runs (h : (w.validate context b).run s = (result, t)) :
  Runs (w.validate context b) ((w.recorded object).validate context b) s result t
    [.validate object b result]
  := Runs.noted h fun _ r => [Call.validate object b r]

theorem apply_runs (h : (w.apply context b given).run s = ((result, stored), t)) :
  Runs (w.apply context b given) ((w.recorded object).apply context b given) s (result, stored) t
    [.apply object b result stored]
  := Runs.noted h fun _ r => [Call.apply object b r.1 r.2]

theorem commit_runs (h : (w.commit context b).run s = (result, t)) :
  Runs (w.commit context b) ((w.recorded object).commit context b) s result t
    [.commit object b result]
  := Runs.noted h fun _ r => [Call.commit object b r]

theorem undo_runs (h : (w.undo context b stored).run s = (result, t)) :
  Runs (w.undo context b stored) ((w.recorded object).undo context b stored) s result t
    [.undo object b stored result]
  := Runs.noted h fun _ r => [Call.undo object b stored r]

theorem cleanup_runs (h : (w.cleanup context b).run s = ((), t)) :
  Runs (w.cleanup context b) ((w.recorded object).cleanup context b) s () t
    [.cleanup object b]
  := Runs.noted h fun _ _ => [Call.cleanup object b]

end Writable

/-! ### Preparing variables -/

theorem WriteResult.isOk_eq_false {result : WriteResult} (h : result ≠ .ok) :
  result.isOk = false
  := by
  cases result with
  | ok => contradiction
  | _ => rfl

section

variable {context : RequestContext} {w : Writable σ} {v : Variable} {s s₁ t : AgentState σ}
variable {result : WriteResult} {stored : Option Value} (object : ObjectId)

theorem Agent.offer_invalid (stage : Bool)
    (hvalidate : (w.validate context v.binding).run s = (result, t)) (hresult : result ≠ .ok) :
  Runs (offer context w stage v) (offer context (w.recorded object) stage v)
    s (false, v.fail result.toStatus) t [.validate object v.binding result]
  := by
  apply Runs.cons (Writable.validate_runs object hvalidate)
  rw [WriteResult.isOk_eq_false hresult]
  apply Runs.pure

theorem Agent.offer_valid (hvalidate : (w.validate context v.binding).run s = (.ok, t)) :
  Runs (offer context w false v) (offer context (w.recorded object) false v)
    s (true, { v with stage := .validated }) t [.validate object v.binding .ok]
  := by
  apply Runs.cons (Writable.validate_runs object hvalidate)
  apply Runs.pure

theorem Agent.offer_unapplied
    (hvalidate : (w.validate context v.binding).run s = (.ok, s₁))
    (happly : (w.apply context v.binding v.undo).run s₁ = ((result, stored), t))
    (hresult : result ≠ .ok) :
  Runs (offer context w true v) (offer context (w.recorded object) true v)
    s (false, { v with undo := stored, stage := .validated }.fail result.toStatus) t
    [.validate object v.binding .ok, .apply object v.binding result stored]
  := by
  apply Runs.cons (Writable.validate_runs object hvalidate)
  apply Runs.cons (Writable.apply_runs object happly)
  dsimp only
  rw [WriteResult.isOk_eq_false hresult]
  apply Runs.pure

theorem Agent.offer_applied
    (hvalidate : (w.validate context v.binding).run s = (.ok, s₁))
    (happly : (w.apply context v.binding v.undo).run s₁ = ((.ok, stored), t)) :
  Runs (offer context w true v) (offer context (w.recorded object) true v)
    s (true, { v with undo := stored, stage := .applied }) t
    [.validate object v.binding .ok, .apply object v.binding .ok stored]
  := by
  apply Runs.cons (Writable.validate_runs object hvalidate)
  apply Runs.cons (Writable.apply_runs object happly)
  apply Runs.pure

end

/-- The variable with the registration found for it, when the lock on the object is had. -/
def Variable.lockedFor (v : Variable) (context : RequestContext) (target : Entry) : Variable :=
  { v.toTarget context target with stage := .locked }

namespace Agent
variable (a : Agent σ) (context : RequestContext)

theorem prepare_refused (healthy : Bool) {v : Variable} {s t : AgentState σ} {target : Option Entry}
    {status : Status} (h : a.Refuses context v s target status t) :
  Runs (a.prepare context healthy v) (a.recorded.prepare context healthy v) s
    (false, Preparation.prepared ⟨v, .refused target status⟩ context) t []
  := by
  cases h with
  | denied denied =>
      apply Runs.unnoted_bind (Unnoted.unnoted _) denied
      apply Runs.pure
  | unserved granted unserved =>
      apply Runs.unnoted_bind (Unnoted.unnoted _) granted
      apply Runs.unnoted_bind (unnoted_find a _ _) unserved
      apply Runs.pure
  | unwritable granted found unwritable =>
      apply Runs.unnoted_bind (Unnoted.unnoted _) granted
      apply Runs.unnoted_bind (unnoted_find a _ _) found
      dsimp only
      rw [recorded_writable, unwritable]
      apply Runs.pure
  | unavailable granted found canWrite unavailable =>
      apply Runs.unnoted_bind (Unnoted.unnoted _) granted
      apply Runs.unnoted_bind (unnoted_find a _ _) found
      dsimp only
      rw [recorded_writable, canWrite]
      apply Runs.unnoted_bind (unnoted_lockFor a _ _ _) unavailable
      apply Runs.pure

theorem prepare_admitted {healthy : Bool} {v v' : Variable} {s s₁ t : AgentState σ}
    {target : Entry} {writable : Writable σ} {prepared : Bool} {calls : List Call}
    (h : a.Admits context v s target writable s₁)
    (hoffer : Runs (offer context writable healthy (v.lockedFor context target))
      (offer context (writable.recorded target.object) healthy (v.lockedFor context target))
      s₁ (prepared, v') t calls) :
  Runs (a.prepare context healthy v) (a.recorded.prepare context healthy v) s
    (prepared, v') t calls
  := by
  obtain ⟨granted, found, canWrite, locked⟩ := h
  apply Runs.unnoted_bind (Unnoted.unnoted _) granted
  apply Runs.unnoted_bind (unnoted_find a _ _) found
  dsimp only
  rw [recorded_writable, canWrite]
  apply Runs.unnoted_bind (unnoted_lockFor a _ _ _) locked
  apply hoffer

/-- What becomes of a variable when it is prepared. -/
theorem prepare_of_meets {healthy : Bool} {v : Variable} {s t : AgentState σ} {fate : Fate}
    (h : a.Meets context healthy v s fate t) :
  Runs (a.prepare context healthy v) (a.recorded.prepare context healthy v) s
    (!fate.isFailure, Preparation.prepared ⟨v, fate⟩ context) t (Preparation.calls ⟨v, fate⟩)
  := by
  cases h with
  | refused refused => apply prepare_refused a context healthy refused
  | invalid admitted validated failed =>
      apply prepare_admitted a context admitted
      apply offer_invalid (v := v.lockedFor context _) _ _ validated failed
  | valid admitted validated unsound =>
      subst unsound
      apply prepare_admitted a context admitted
      apply offer_valid (v := v.lockedFor context _) _ validated
  | unapplied admitted validated sound applied failed =>
      subst sound
      apply prepare_admitted a context admitted
      apply offer_unapplied (v := v.lockedFor context _) _ validated applied failed
  | applied admitted validated sound applied =>
      subst sound
      apply prepare_admitted a context admitted
      apply offer_applied (v := v.lockedFor context _) _ validated applied

theorem refuses_or_admits (v : Variable) (s : AgentState σ) :
  (∃ target status t, a.Refuses context v s target status t)
    ∨ (∃ target writable t, a.Admits context v s target writable t)
  := by
  rcases granted : (a.access (context.check .write v.binding.oid)).run s with ⟨_ | _, s₁⟩
  · left
    exact ⟨_, _, _, .denied granted⟩
  · rcases found : (a.find (queryFor context v true)).run s₁ with ⟨_ | target, s₂⟩
    · left
      exact ⟨_, _, _, .unserved granted found⟩
    · cases canWrite : (a.object target.object).writable with
      | none =>
          left
          exact ⟨_, _, _, .unwritable granted found canWrite⟩
      | some writable =>
          rcases locked : (a.lockFor context target.object).run s₂ with ⟨_ | _, t⟩
          · left
            exact ⟨_, _, _, .unavailable granted found canWrite locked⟩
          · right
            exact ⟨_, _, _, .intro granted found canWrite locked⟩

/-- Every variable meets a fate. -/
theorem exists_meets (healthy : Bool) (v : Variable) (s : AgentState σ) :
  ∃ fate t, a.Meets context healthy v s fate t
  := by
  rcases refuses_or_admits a context v s with ⟨_, _, _, h⟩ | ⟨target, writable, s₁, h⟩
  · exact ⟨_, _, .refused h⟩
  · rcases hvalidate : (writable.validate context v.binding).run s₁ with ⟨result, s₂⟩
    by_cases hresult : result = .ok
    · subst hresult
      cases healthy with
      | false => exact ⟨_, _, .valid h hvalidate rfl⟩
      | true =>
          rcases happly : (writable.apply context v.binding v.undo).run s₂ with
            ⟨⟨result, stored⟩, t⟩
          by_cases hresult : result = .ok
          · subst hresult
            exact ⟨_, _, .applied h hvalidate rfl happly⟩
          · exact ⟨_, _, .unapplied h hvalidate rfl happly hresult⟩
    · exact ⟨_, _, .invalid h hvalidate hresult⟩

/-- Preparing variables, their fates are met one after the other. -/
theorem prepareAll_runs (healthy : Bool) (vs : List Variable) (s : AgentState σ) :
  ∃ ps t, ps.map (·.asked) = vs ∧ a.MeetAll context healthy s ps t
    ∧ Runs (a.prepareAll context healthy vs) (a.recorded.prepareAll context healthy vs) s
        (healthy && ps.all (!·.fate.isFailure), ps.map (·.prepared context)) t
        (ps.flatMap (·.calls))
  := by
  induction vs generalizing healthy s with
  | nil =>
      use [], s, rfl, .nil
      rw [List.all_nil, Bool.and_true]
      apply Runs.pure
  | cons v rest ih =>
      obtain ⟨fate, s₁, hmeets⟩ := exists_meets a context healthy v s
      obtain ⟨ps, t, hasked, hall, hruns⟩ := ih (healthy && !fate.isFailure) s₁
      use ⟨v, fate⟩ :: ps, t
      refine ⟨by rw [List.map_cons, hasked], .cons hmeets hall, ?_⟩
      rw [List.all_cons, ← Bool.and_assoc]
      apply Runs.bind (prepare_of_meets a context hmeets)
      apply Runs.bind_pure hruns
      · rfl
      · rfl

end Agent

/-! ### Objects that were asked -/

namespace Agent
variable (a : Agent σ) (context : RequestContext)

/-- The object that was asked about a variable can be written. -/
def Serves (p : Preparation) : Prop :=
  ∀ target, p.fate.receiver? = some target →
    ∃ writable, (a.object target.object).writable = some writable

variable {a context}

theorem Meets.serves {healthy : Bool} {v : Variable} {s t : AgentState σ} {fate : Fate}
    (h : a.Meets context healthy v s fate t) :
  a.Serves ⟨v, fate⟩
  := by
  intro target htarget
  cases h with
  | refused refused => cases htarget
  | invalid admitted _ _ | valid admitted _ _ | unapplied admitted _ _ _ _
  | applied admitted _ _ _ =>
      obtain ⟨_, _, canWrite, _⟩ := admitted
      cases htarget
      exact ⟨_, canWrite⟩

theorem MeetAll.serves {healthy : Bool} {s t : AgentState σ} {ps : List Preparation}
    (h : a.MeetAll context healthy s ps t) :
  ∀ p ∈ ps, a.Serves p
  := by
  induction h with
  | nil =>
      intro p hp
      cases hp
  | cons first others ih =>
      intro p hp
      rcases List.mem_cons.mp hp with rfl | hp
      · apply first.serves
      · apply ih p hp

/-! ### Being asked -/

theorem Admits.target_eq {v : Variable} {s t t' : AgentState σ} {target target' : Entry}
    {writable writable' : Writable σ} (h : a.Admits context v s target writable t)
    (h' : a.Admits context v s target' writable' t') :
  target' = target
  := by
  obtain ⟨granted, found, _, _⟩ := h
  obtain ⟨granted', found', _, _⟩ := h'
  rw [granted] at granted'
  cases granted'
  rw [found] at found'
  cases found'
  rfl

theorem Refuses.not_admits {v : Variable} {s t t' : AgentState σ} {target : Option Entry}
    {target' : Entry} {status : Status} {writable : Writable σ}
    (h : a.Refuses context v s target status t) :
  ¬a.Admits context v s target' writable t'
  := by
  rintro ⟨granted', found', canWrite', locked'⟩
  cases h with
  | denied denied =>
      rw [denied] at granted'
      cases granted'
  | unserved granted unserved =>
      rw [granted] at granted'
      cases granted'
      rw [unserved] at found'
      cases found'
  | unwritable granted found unwritable =>
      rw [granted] at granted'
      cases granted'
      rw [found] at found'
      cases found'
      rw [unwritable] at canWrite'
      cases canWrite'
  | unavailable granted found _ unavailable =>
      rw [granted] at granted'
      cases granted'
      rw [found] at found'
      cases found'
      rw [unavailable] at locked'
      cases locked'

/-- The object that is asked about a variable is the one to which the variable is admitted. -/
theorem Meets.receiver?_eq_some_iff {healthy : Bool} {v : Variable} {s t : AgentState σ}
    {fate : Fate} (h : a.Meets context healthy v s fate t) (target : Entry) :
  fate.receiver? = some target ↔ ∃ writable u, a.Admits context v s target writable u
  := by
  cases h with
  | refused refused =>
      constructor
      · nofun
      · rintro ⟨_, _, admitted⟩
        apply absurd admitted refused.not_admits
  | invalid admitted _ _ | valid admitted _ _ | unapplied admitted _ _ _ _
  | applied admitted _ _ _ =>
      constructor
      · rintro ⟨⟩
        exact ⟨_, _, admitted⟩
      · rintro ⟨_, _, admitted'⟩
        rw [admitted.target_eq admitted']
        rfl

/-- The object of a variable is asked to take the value on if it finds it valid and no variable
failed before. -/
theorem Meets.isOffered_iff {healthy : Bool} {v : Variable} {s t : AgentState σ} {fate : Fate}
    (h : a.Meets context healthy v s fate t) :
  fate.isOffered ↔ fate.isValid ∧ healthy
  := by
  cases h with
  | refused _ | invalid _ _ _ => simp [Fate.isOffered, Fate.isValid]
  | valid _ _ unsound => simp [Fate.isOffered, unsound]
  | unapplied _ _ sound _ _ | applied _ _ sound _ => simp [Fate.isOffered, Fate.isValid, sound]

/-- A variable meets its fate in the state left by those before it. -/
theorem MeetAll.meets {healthy : Bool} {s t : AgentState σ} {earlier later : List Preparation}
    {p : Preparation} (h : a.MeetAll context healthy s (earlier ++ p :: later) t) :
  ∃ s₁ s₂, a.MeetAll context healthy s earlier s₁
    ∧ a.Meets context (healthy && earlier.all (!·.fate.isFailure)) p.asked s₁ p.fate s₂
  := by
  induction earlier generalizing healthy s with
  | nil =>
      cases h with
      | cons first _ =>
          rw [List.all_nil, Bool.and_true]
          exact ⟨_, _, .nil, first⟩
  | cons q rest ih =>
      cases h with
      | cons first others =>
          obtain ⟨s₁, s₂, hearlier, hmeets⟩ := ih others
          rw [Bool.and_assoc] at hmeets
          use s₁, s₂, .cons first hearlier, hmeets

theorem Meets.isApplied {v : Variable} {s t : AgentState σ} {fate : Fate}
    (h : a.Meets context true v s fate t) (hfate : fate.isFailure = false) :
  fate.isApplied
  := by
  cases h with
  | refused _ | invalid _ _ _ | unapplied _ _ _ _ _ => cases hfate
  | valid _ _ unsound => cases unsound
  | applied _ _ _ _ => rfl

/-- When no variable fails, all objects take their values on. -/
theorem MeetAll.isApplied {s t : AgentState σ} {ps : List Preparation}
    (h : a.MeetAll context true s ps t) (hps : ∀ p ∈ ps, p.fate.isFailure = false) :
  ∀ p ∈ ps, p.fate.isApplied
  := by
  induction ps generalizing s with
  | nil =>
      intro p hp
      cases hp
  | cons p rest ih =>
      obtain ⟨hp, hrest⟩ := List.forall_mem_cons.mp hps
      cases h with
      | cons first others =>
          rw [hp] at others
          rw [List.forall_mem_cons]
          constructor
          · apply first.isApplied hp
          · apply ih others hrest

variable (a)

theorem writer?_eq {v : Variable} {target : Entry} (h : v.target = some target) :
  a.writer? v = (a.object target.object).writable
  := by
  rw [writer?, h, Option.bind_some]

theorem recorded_writer? {v : Variable} {target : Entry} (h : v.target = some target) :
  a.recorded.writer? v = (a.object target.object).writable.map (·.recorded target.object)
  := by
  rw [writer?, h, Option.bind_some, recorded_writable]

end Agent

end MibAgent
