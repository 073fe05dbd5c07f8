import MibAgent.Proofs.SearchTurns
import MibAgent.Proofs.Secrecy

/-!
# Responses in the first version

The first version of the protocol knows neither bulk reads nor exceptional values nor 64-bit
counters, and only the oldest statuses. Whatever is registered, and whatever the objects answer,
its requesters get none of what it does not know: a bulk read becomes a read of what comes next,
no variable is answered with a counter that is too long, and the response does away with
exceptions and with later statuses.
-/

namespace MibAgent

open AgentM (Ensures)
open Agent (NextOutcome recordNext isUnspeakable)

variable {σ : Type}

/-! ### Statuses -/

namespace Status

/-- The statuses that the first version of the protocol knows. -/
def legacy : List Status := [noError, tooBig, noSuchName, badValue, readOnly, genErr]

theorem toLegacy_mem_legacy :
  ∀ status ∈ named, status.toLegacy ∈ legacy
  := by decide

end Status

theorem WriteResult.toStatus_mem_named (result : WriteResult) :
  result.toStatus ∈ Status.named
  := by
  cases result with
  | _ => decide

/-- The status of a variable that has been prepared has a name. -/
theorem Agent.Meets.status_mem_named {a : Agent σ} {context : RequestContext} {healthy : Bool}
    {v : Variable} {s t : AgentState σ} {fate : Fate} (h : a.Meets context healthy v s fate t) :
  fate.status ∈ Status.named
  := by
  cases h with
  | refused refused =>
      cases refused with
      | _ => simp [Fate.status, Status.named]
  | invalid _ _ _ | unapplied _ _ _ _ _ => apply WriteResult.toStatus_mem_named
  | valid _ _ _ | applied _ _ _ _ => apply List.mem_cons_self

/-- The status of a variable that has been written has a name. -/
theorem Agent.Writes.status_mem_named {a : Agent σ} {context : RequestContext} {s : AgentState σ}
    {stories : List Story} (h : a.Writes context s stories) :
  ∀ story ∈ stories, story.status ∈ Status.named
  := by
  intro story hstory
  have hfate : story.fate.status ∈ Status.named := by
    obtain ⟨t, hmeet⟩ := h.prepared
    obtain ⟨earlier, later, rfl⟩ := List.append_of_mem hstory
    rw [List.map_append, List.map_cons] at hmeet
    obtain ⟨_, _, -, hmeets⟩ := hmeet.meets
    apply hmeets.status_mem_named
  rw [Story.status]
  split
  · decide
  · split
    · decide
    · apply hfate

/-! ### Variables -/

/-- The status of the variable has a name, and unless the variable has failed its value can be
given to the requester. -/
structure Variable.Speaks (context : RequestContext) (w : Variable) : Prop where
  status : w.status ∈ Status.named
  value : w.status = .noError → isUnspeakable context w.binding.value = false

namespace Variable

variable {context : RequestContext} {v : Variable}

theorem speaks_answer (hhealthy : v.status = .noError) {b : Binding}
    (hvalue : isUnspeakable context b.value = false) :
  (v.answer b).Speaks context
  where
  status := by
    rw [show (v.answer b).status = .noError from hhealthy]
    apply List.mem_cons_self
  value _ := hvalue

theorem speaks_fail {status : Status} (hnamed : status ∈ Status.named)
    (herror : status ≠ .noError) :
  (v.fail status).Speaks context
  where
  status := hnamed
  value hnone := absurd hnone herror

theorem Asks.speaks {op : Operation} {x : Oid} (h : v.Asks op x) :
  v.Speaks context
  where
  status := by
    rw [h.healthy]
    apply List.mem_cons_self
  value _ := by
    rw [h.binding]
    apply Bool.and_false

end Variable

namespace Agent

variable {a : Agent σ} {context : RequestContext} {op : Operation} {v : Variable} {x : Oid}

theorem speaks_readExact (hhealthy : v.status = .noError) :
  Ensures (fun _ => True) (a.readExact context v) (·.Speaks context)
  := by
  have hany : ∀ {α : Type} (m : AgentM σ α), Ensures (fun _ => True) m fun _ => True :=
    fun _ => ⟨fun _ _ => ⟨trivial, trivial⟩⟩
  have hnothing : (v.answerValue .noSuchObject).Speaks context :=
    Variable.speaks_answer hhealthy (Bool.and_false _)
  rw [readExact]
  apply (hany _).bind
  intro granted _
  cases granted with
  | false => apply Ensures.pure hnothing
  | true =>
      apply (hany _).bind
      intro found _
      cases found with
      | none => apply Ensures.pure hnothing
      | some entry =>
          apply (hany _).bind
          intro locked _
          cases locked with
          | false => exact Ensures.pure (Variable.speaks_fail (by decide) (by decide))
          | true =>
              apply (hany _).bind
              intro result _
              apply (hany _).bind
              intro _ _
              cases hvalue : isUnspeakable context result.toValue with
              | true => exact Ensures.pure (Variable.speaks_fail (by decide) (by decide))
              | false =>
                  apply Ensures.pure
                  apply Variable.speaks_answer _ hvalue
                  apply hhealthy

theorem speaks_readNext (hasks : v.Asks op x) :
  Ensures (fun _ => True) (a.readNext context v) (·.Speaks context)
  := by
  apply ensures_readNext (a.searchesAmong_all context)
  intro queries o htrail
  cases o with
  | endOfView => exact Variable.speaks_answer hasks.healthy (Bool.and_false _)
  | unavailable e => exact Variable.speaks_fail (by decide) (by decide)
  | found e q b =>
      apply Variable.speaks_answer _ (htrail.inside rfl).2
      apply hasks.healthy
  | unfinished => exact hasks.speaks

end Agent

/-! ### Requests -/

namespace Request

/-- A request of the first version that has been carried out: it has no rows, its statuses have
names, and a read has no answers that the requester cannot be given. -/
structure IsLegacy (r : Request) (pdu : Pdu) : Prop where
  version : r.context.version = .v1
  requestId : r.requestId = pdu.requestId
  requested : r.requested = pdu.bindings
  repeaters : r.repeaters = 0
  status : ∀ w ∈ r.vars, w.status ∈ Status.named
  value : pdu.operation.isWrite = false →
    ∀ w ∈ r.vars, w.status = .noError → w.binding.value.isCounter64 = false

section

variable {context : RequestContext} (hversion : context.version = .v1)
include hversion

theorem effectiveOperation_legacy (op : Operation) :
  effectiveOperation context.version op ≠ .getBulk
  := by
  rw [effectiveOperation, hversion]
  split
  · intro hnext
    cases hnext
  · rename_i hbulk
    intro hop
    apply hbulk ⟨hop, rfl⟩

theorem repeaters_create_legacy (transaction : Nat) (pdu : Pdu) (maxSize : Nat) :
  (create context transaction pdu maxSize).repeaters = 0
  := if_neg (effectiveOperation_legacy hversion pdu.operation)

/-- A bulk read is made into a read of what comes next. -/
theorem create_legacy {pdu next : Pdu} (hbulk : pdu.operation = .getBulk)
    (hnext : next.operation = .getNext) (hid : next.requestId = pdu.requestId)
    (hbindings : next.bindings = pdu.bindings) (transaction maxSize : Nat) :
  create context transaction pdu maxSize = create context transaction next maxSize
  := by
  have hoperation : effectiveOperation context.version next.operation
      = effectiveOperation context.version pdu.operation := by
    rw [hversion, hbulk, hnext]
    rfl
  simp only [create, hoperation, hid, hbindings,
    if_neg (effectiveOperation_legacy hversion pdu.operation)]

end

end Request

namespace Agent

variable (a : Agent σ) {context : RequestContext} (hversion : context.version = .v1)
  (transaction : Nat) (pdu : Pdu) (maxSize : Nat) (s : AgentState σ)
include hversion

theorem isLegacy_performSet (hset : pdu.operation = .set) :
  ((a.perform (.create context transaction pdu maxSize)).run s).1.IsLegacy pdu
  := by
  have hfresh := Request.isFresh_create_set context transaction maxSize hset
  obtain ⟨stories, t, hasked, hwrites, hruns⟩ := write_runs a _ hfresh s
  rw [perform_create_set a context transaction maxSize hset, hruns.plain]
  refine ⟨hversion, rfl, rfl, Request.repeaters_create_legacy hversion transaction pdu maxSize,
    ?_, ?_⟩
  · intro w hw
    rw [Request.written, List.mem_toArray] at hw
    obtain ⟨story, hstory, rfl⟩ := List.mem_map.mp hw
    rw [story.released_status]
    · apply hwrites.status_mem_named story hstory
    · apply hfresh
      rw [← hasked]
      apply List.mem_map_of_mem hstory
  · intro hread
    rw [hset] at hread
    cases hread

theorem isLegacy_performRead (hread : pdu.operation.isWrite = false) :
  ((a.perform (.create context transaction pdu maxSize)).run s).1.IsLegacy pdu
  := by
  let start := Request.create context transaction pdu maxSize
  have hrepeaters : start.repeaters = 0 :=
    Request.repeaters_create_legacy hversion transaction pdu maxSize
  have hfinishes : Ensures (fun _ => True) (a.perform start)
      (start.IsFinished fun _ w => w.Speaks start.context) := by
    rw [perform_create_read a context _ maxSize hread]
    apply ensures_read (Request.isNewRead_create context transaction maxSize hread)
    · intro x v hasks
      rw [readVariable]
      split
      · apply speaks_readNext hasks
      · apply speaks_readExact hasks.healthy
    · intro hrows
      rw [hrepeaters] at hrows
      cases hrows
  obtain ⟨-, hfinished⟩ := hfinishes.run s trivial
  have hcontext := hfinished.continues.context
  refine ⟨?_, ?_, hfinished.continues.requested, ?_, ?_, ?_⟩
  · rw [hcontext]
    apply hversion
  · rw [Request.requestId, hcontext]
    rfl
  · rw [hfinished.continues.repeaters, hrepeaters]
  · intro w hw
    obtain ⟨x, hspeaks⟩ := hfinished.exists_of_mem hw
    apply hspeaks.status
  · intro _ w hw hstatus
    obtain ⟨x, hspeaks⟩ := hfinished.exists_of_mem hw
    have hvalue := hspeaks.value hstatus
    rw [isUnspeakable, show start.context.version = .v1 from hversion] at hvalue
    apply hvalue

/-- However a request is carried out in the first version, its variables have nothing to say that
the version does not know, but for exceptions and later statuses. -/
theorem isLegacy_perform :
  ((a.perform (.create context transaction pdu maxSize)).run s).1.IsLegacy pdu
  := by
  cases hoperation : pdu.operation with
  | set => apply isLegacy_performSet a hversion _ _ _ _ hoperation
  | get | getNext | getBulk =>
      apply isLegacy_performRead a hversion
      rw [hoperation]
      rfl

end Agent

/-! ### Responses -/

namespace Request.IsLegacy

variable {r : Request} {pdu : Pdu} (h : r.IsLegacy pdu)
include h

/-- Exceptions and later statuses are done away with. -/
theorem response_status :
  r.response.status ∈ Status.legacy
  := by
  cases hfailure : r.failure? with
  | none =>
      rw [response_of_success hfailure]
      split
      · simp [Status.legacy]
      · simp [Status.legacy]
  | some failure =>
      obtain ⟨status, index⟩ := failure
      rw [response_of_failure hfailure]
      change status ∈ Status.legacy
      rw [failure?, h.version] at hfailure
      split at hfailure
      · cases hfailure
        decide
      · obtain ⟨w, hw, hstatus⟩ := Option.map_eq_some_iff.mp hfailure
        cases hstatus
        apply Status.toLegacy_mem_legacy
        apply h.status w (Array.mem_of_find?_eq_some hw)

/-- An answer without a failure holds values that the first version knows. -/
theorem values_of_noError (hread : pdu.operation.isWrite = false)
    (hstatus : r.response.status = .noError) :
  ∀ b ∈ r.response.bindings, b.isException = false ∧ b.value.isCounter64 = false
  := by
  intro b hb
  obtain ⟨w, hw, rfl, hhealthy⟩ := exists_of_mem_response hstatus hb
  refine ⟨?_, h.value hread w hw hhealthy⟩
  have hspoken := (failure?_eq_none_iff.mp (failure?_eq_none hstatus)).2
  rw [h.version] at hspoken
  apply hspoken rfl w hw

/-- The first exception is reported as a name that does not exist. -/
theorem response_of_exception {i : Nat} {w : Variable} (hw : r.vars[i]? = some w)
    (hexception : w.binding.isException)
    (hfirst : ∀ j < i, ∀ u, r.vars[j]? = some u → u.binding.isException = false) :
  r.response = ⟨pdu.requestId, .noSuchName, i + 1, pdu.bindings⟩
  := by
  have hposition : r.unspoken? = some i := by
    rw [unspoken?, h.version]
    apply Array.findIdx?_eq_some_iff_getElem.mpr
    obtain ⟨hi, rfl⟩ := Array.getElem?_eq_some_iff.mp hw
    refine ⟨hi, hexception, ?_⟩
    intro j hj
    rw [hfirst j hj _ (Array.getElem?_eq_getElem _)]
    exact Bool.false_ne_true
  have hfailure : r.failure? = some (.noSuchName, i + 1) := by
    have hsame : r.requestedPosition i = i := if_pos (.inl h.repeaters)
    rw [failure?, hposition]
    dsimp only
    rw [hsame]
  rw [response_of_failure hfailure, failureResponse, h.requestId, h.requested]

end Request.IsLegacy

namespace Agent

/-- Nothing that the first version of the protocol does not know gets into its responses. A bulk
read is answered as a read of what comes next. Statuses are among the oldest ones, and answers to
a read without a failure are neither exceptions nor 64-bit counters. Where there is an exception,
the response says that the name at the first such position does not exist. -/
theorem legacy_response (a : Agent σ) {context : RequestContext} (hversion : context.version = .v1)
    (pdu : Pdu) (maxSize : Nat) (s : AgentState σ) :
  (∀ next : Pdu, pdu.operation = .getBulk → next.operation = .getNext →
    next.requestId = pdu.requestId → next.bindings = pdu.bindings →
      a.process context pdu maxSize = a.process context next maxSize)
    ∧ ∀ response, ((a.process context pdu maxSize).run s).1 = .ok response →
      response.status ∈ Status.legacy
        ∧ (pdu.operation.isWrite = false → response.status = .noError →
          ∀ b ∈ response.bindings, b.isException = false ∧ b.value.isCounter64 = false)
        ∧ ∃ t : AgentState σ, t.surroundings = s.surroundings ∧ t.registry = s.registry
          ∧ let r := ((a.perform (.create context (s.lastTransaction + 1) pdu maxSize)).run t).1
            response = r.response
              ∧ ∀ (i : Nat) (w : Variable), r.vars[i]? = some w → w.binding.isException →
                (∀ j < i, ∀ u, r.vars[j]? = some u → u.binding.isException = false) →
                  response = ⟨pdu.requestId, .noSuchName, i + 1, pdu.bindings⟩
  := by
  constructor
  · intro next hbulk hnext hid hbindings
    have hcreate := Request.create_legacy hversion hbulk hnext hid hbindings
    simp only [process, openRequest, hid, hbindings, hcreate]
  · intro response hresponse
    obtain ⟨t, hsurroundings, hregistry, rfl⟩ := exists_performed context pdu maxSize s hresponse
    have hlegacy := isLegacy_perform a hversion (s.lastTransaction + 1) pdu maxSize t
    refine ⟨hlegacy.response_status, hlegacy.values_of_noError, t, hsurroundings, hregistry, rfl,
      ?_⟩
    intro i w hw hexception hfirst
    apply hlegacy.response_of_exception hw hexception hfirst

/-- A bulk read of what comes after either instance of a shelf, in the first version: nothing comes
after the second one, and its name is said not to exist. -/
theorem pairs_legacy_response :
  let a := Shelves.agent Shelves.pairs fun _ => true
  let s := Shelves.stocked [Shelves.placed Shelves.pairs none 1]
  let context := RequestContext.ofVersion .v1
  let next := Pdu.asking .getNext 1 [Shelves.first 1, Shelves.second 1]
  let pdu : Pdu := { next with operation := .getBulk, maxRepetitions := 3 }
  let response : Response := ⟨1, .noSuchName, 2, next.bindings⟩
  a.process context pdu 500 = a.process context next 500
    ∧ ((a.process context pdu 500).run s).1 = .ok response
    ∧ response.status ∈ Status.legacy
  := by
  intro a s context next pdu response
  have hresponse : ((a.process context pdu 500).run s).1 = .ok response := by decide +kernel
  obtain ⟨hbulk, hlegacy⟩ := legacy_response a (rfl : context.version = .v1) pdu 500 s
  exact ⟨hbulk next rfl rfl rfl rfl, hresponse, (hlegacy response hresponse).1⟩

end Agent

end MibAgent
