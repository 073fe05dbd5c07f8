import MibAgent.Proofs.LongestPrefix
import MibAgent.Proofs.Shelves
import MibAgent.Proofs.Sightings
import MibAgent.Proofs.WriteResponse

/-!
# Secrecy

A requester learns nothing of the instances that it may not read. Where two agents have the same
registrations, and objects that differ in denied instances only, every read is answered alike. The
two reads are followed step by step: what the requests know of the way to their answers differs, and
all the rest is the same.
-/

namespace MibAgent

open AgentM (Gives)

variable {σ σ' α α' β β' : Type}

/-! ### What the response depends on -/

namespace Request

/-- A request without what led to its answers, and without its transaction number. -/
def bare (r : Request) : Request where
  context := { r.context with transaction := 0 }
  nonRepeaters := r.nonRepeaters
  maxRepetitions := r.maxRepetitions
  repeaters := r.repeaters
  maxSize := r.maxSize
  requested := r.requested
  vars := r.vars.map Variable.bare
  exhausted := r.exhausted
  attachments := r.attachments

variable (r : Request) (position : Nat)

theorem bindings_bare :
  r.bare.bindings = r.bindings
  := by
  rw [bindings, bindings, bare, Array.toList_map, List.map_map]
  rfl

theorem encodedSize_bare :
  r.bare.encodedSize = r.encodedSize
  := by
  rw [encodedSize, bindings_bare]
  rfl

theorem size_bare :
  r.bare.size = r.size
  := Array.size_map

theorem getElem?_bare :
  r.bare.vars[position]? = r.vars[position]?.map Variable.bare
  := Array.getElem?_map

theorem closeRow_bare :
  r.bare.closeRow position = ((r.closeRow position).1, (r.closeRow position).2.bare)
  := by
  have hlast : r.bare.vars.extract (position - r.repeaters) position
      = (r.vars.extract (position - r.repeaters) position).map Variable.bare :=
    Array.map_extract.symm
  have hall : ((r.vars.extract (position - r.repeaters) position).map Variable.bare).all
        (fun w => w.binding.value == .endOfMibView)
      = (r.vars.extract (position - r.repeaters) position).all
        (fun w => w.binding.value == .endOfMibView) := Array.all_map
  have hsizes : ((r.vars.extract (position - r.repeaters) position).map
        Variable.bare).toList.map (fun w => w.binding.encodedSize)
      = (r.vars.extract (position - r.repeaters) position).toList.map
        (fun w => w.binding.encodedSize) := by
    rw [Array.toList_map, List.map_map]
    rfl
  have hrepeaters : r.bare.repeaters = r.repeaters := rfl
  have hmaxSize : r.bare.maxSize = r.maxSize := rfl
  rw [closeRow, closeRow, encodedSize_bare, hrepeaters, hmaxSize, hlast, hall, hsizes]
  split
  · simp only [bare, Array.take_eq_extract, apply_ite (Array.map Variable.bare), Array.map_extract]
    rfl
  · split
    · rfl
    · rfl

theorem hasNext_bare :
  r.bare.hasNext position = ((r.hasNext position).1, (r.hasNext position).2.bare)
  := by
  have hexhausted : r.bare.exhausted = r.exhausted := rfl
  have hnonRepeaters : r.bare.nonRepeaters = r.nonRepeaters := rfl
  have hrepeaters : r.bare.repeaters = r.repeaters := rfl
  rw [hasNext, hasNext, size_bare, closeRow_bare, hexhausted, hnonRepeaters, hrepeaters]
  split
  · rfl
  · split
    · rfl
    · by_cases hfinished :
          r.nonRepeaters < position ∧ (position - r.nonRepeaters) % r.repeaters = 0
      · simp only [if_pos hfinished]
        rfl
      · simp only [if_neg hfinished]
        rfl

theorem materialize_bare :
  r.bare.materialize position = (r.materialize position).bare
  := by
  have hrepeaters : r.bare.repeaters = r.repeaters := rfl
  rw [materialize, materialize, size_bare, hrepeaters]
  split
  · rfl
  · dsimp only
    rw [getElem?_bare]
    cases r.vars[position - r.repeaters]? with
    | none => rfl
    | some p =>
        rw [Option.map_some, bare, bare, Array.map_push]
        rfl

/-- A cursor comes to the same variable. -/
theorem next_bare :
  r.bare.next position = ((r.next position).1.map Variable.bare, (r.next position).2.bare)
  := by
  rw [next, next, hasNext_bare]
  cases hnext : r.hasNext position with
  | mk open' s =>
      cases open' with
      | false => rfl
      | true =>
          dsimp only
          rw [materialize_bare, getElem?_bare]

theorem modify_bare (w : Variable) :
  (r.modify position fun _ => w).bare = r.bare.modify position fun _ => w.bare
  := by
  have hvars : (r.vars.modify position fun _ => w).map Variable.bare
      = (r.vars.map Variable.bare).modify position fun _ => w.bare := by
    apply Array.ext_getElem?
    intro i
    rw [Array.getElem?_map, Array.getElem?_modify, Array.getElem?_modify, Array.getElem?_map]
    split
    · rw [Option.map_map, Option.map_map]
      rfl
    · rfl
  rw [modify, modify, bare, hvars]
  rfl

theorem failure?_bare :
  r.bare.failure? = r.failure?
  := by
  have hunspoken : r.bare.unspoken? = r.unspoken? := by
    have hfirst : r.bare.firstException? = r.firstException? := Array.findIdx?_map
    rw [unspoken?, hfirst]
    rfl
  have herror : r.bare.firstError? = r.firstError?.map Variable.bare := Array.find?_map
  rw [failure?, failure?, hunspoken]
  cases r.unspoken? with
  | some position => rfl
  | none =>
      dsimp only
      rw [errorIndex, errorIndex, herror]
      cases r.firstError? with
      | none => rfl
      | some w => rfl

theorem dropToFit_bare (least : Nat) (bindings : List Binding) :
  r.bare.dropToFit least bindings = r.dropToFit least bindings
  := by
  have hfits : r.bare.fits = r.fits := rfl
  fun_induction dropToFit r least bindings with
  | case1 bindings hdrop ih => rw [dropToFit, hfits, if_pos hdrop, ih]
  | case2 bindings hkeep => rw [dropToFit, hfits, if_neg hkeep]

/-- The response is the same. -/
theorem response_bare :
  r.bare.response = r.response
  := by
  cases hfailure : r.failure? with
  | some failure =>
      rw [response_of_failure hfailure]
      rw [← failure?_bare] at hfailure
      rw [response_of_failure hfailure]
      rfl
  | none =>
      have hfitting : r.bare.fittingBindings = r.fittingBindings := by
        rw [fittingBindings, bindings_bare, dropToFit_bare]
        rfl
      rw [response_of_success hfailure]
      rw [← failure?_bare] at hfailure
      rw [response_of_success hfailure, hfitting]
      rfl

end Request

/-! ### What a response without a failure holds -/

namespace Request

variable {r : Request}

/-- Bindings are dropped at the end only. -/
theorem fittingBindings_isPrefix (r : Request) :
  r.fittingBindings <+: r.bindings
  := by
  rw [fittingBindings]
  split
  · obtain ⟨n, -, -, hdropped, -⟩ := r.exists_dropToFit r.nonRepeaters r.bindings
    rw [hdropped]
    apply List.take_prefix
  · exact ⟨[], r.bindings.append_nil⟩

theorem isError_of_failure {status : Status} {index : Nat} (h : r.failure? = some (status, index)) :
  status.isError
  := by
  rw [failure?] at h
  cases hunspoken : r.unspoken? with
  | some position =>
      rw [hunspoken] at h
      cases h
      rfl
  | none =>
      rw [hunspoken] at h
      obtain ⟨w, hw, hfailure⟩ := Option.map_eq_some_iff.mp h
      cases hfailure
      have herror : w.hasError := Array.find?_some hw
      split
      · rw [Status.isError_toLegacy]
        apply herror
      · apply herror

theorem status_eq_noError_of_success (h : r.failure? = none) {w : Variable} (hw : w ∈ r.vars) :
  w.status = .noError
  := by
  have hhealthy := (failure?_eq_none_iff.mp h).1 w hw
  rw [Variable.hasError] at hhealthy
  cases hstatus : w.status with
  | noError => rfl
  | _ => rw [hstatus] at hhealthy; cases hhealthy

theorem failure?_eq_none (hstatus : r.response.status = .noError) :
  r.failure? = none
  := by
  cases hfailure : r.failure? with
  | none => rfl
  | some failure =>
      obtain ⟨status, index⟩ := failure
      rw [response_of_failure hfailure] at hstatus
      change status = .noError at hstatus
      have herror := isError_of_failure hfailure
      rw [hstatus] at herror
      cases herror

/-- A response without a failure holds answers of variables that have not failed. -/
theorem exists_of_mem_response (hstatus : r.response.status = .noError) {b : Binding}
    (hb : b ∈ r.response.bindings) :
  ∃ w ∈ r.vars, w.binding = b ∧ w.status = .noError
  := by
  have hfailure := failure?_eq_none hstatus
  rw [response_of_success hfailure] at hb
  have hmem : b ∈ r.bindings := by
    split at hb
    · apply r.fittingBindings_isPrefix.subset hb
    · cases hb
  obtain ⟨w, hw, rfl⟩ := List.mem_map.mp hmem
  rw [Array.mem_toList_iff] at hw
  exact ⟨w, hw, rfl, status_eq_noError_of_success hfailure hw⟩

end Request

/-- What is known of the variables of a finished read is known of each. -/
theorem Request.IsFinished.exists_of_mem {start r : Request} {Q : Oid → Variable → Prop}
    (h : start.IsFinished Q r) {w : Variable} (hw : w ∈ r.vars) :
  ∃ x, Q x w
  := by
  obtain ⟨i, hi, rfl⟩ := Array.mem_iff_getElem.mp hw
  obtain ⟨x, w', -, hw', hQ⟩ := h.read i hi
  rw [Array.getElem?_eq_getElem hi] at hw'
  cases hw'
  exact ⟨x, hQ⟩

/-! ### Two reads, side by side -/

namespace AgentM

/-- Started in states where `I` and `I'` hold, two computations give results that `R` relates, and
`I` and `I'` hold again. -/
structure Agree (I : AgentState σ → Prop) (I' : AgentState σ' → Prop) (m : AgentM σ α)
    (m' : AgentM σ' α') (R : α → α' → Prop) : Prop where
  run : ∀ s s', I s → I' s' → I (m.run s).2 ∧ I' (m'.run s').2 ∧ R (m.run s).1 (m'.run s').1

namespace Agree

variable {I : AgentState σ → Prop} {I' : AgentState σ' → Prop} {m : AgentM σ α}
  {m' : AgentM σ' α'} {f : α → AgentM σ β} {f' : α' → AgentM σ' β'} {R : α → α' → Prop}
  {S : β → β' → Prop}

theorem pure {x : α} {x' : α'} (h : R x x') :
  Agree I I' (Pure.pure x) (Pure.pure x') R
  := ⟨fun _ _ hs hs' => ⟨hs, hs', h⟩⟩

theorem bind (h : Agree I I' m m' R) (h' : ∀ x x', R x x' → Agree I I' (f x) (f' x') S) :
  Agree I I' (m >>= f) (m' >>= f') S
  := by
  constructor
  intro s s' hs hs'
  obtain ⟨ht, ht', hR⟩ := h.run s s' hs hs'
  apply (h' _ _ hR).run _ _ ht ht'

theorem mono {S : α → α' → Prop} (h : Agree I I' m m' R) (hR : ∀ x x', R x x' → S x x') :
  Agree I I' m m' S
  := by
  constructor
  intro s s' hs hs'
  obtain ⟨ht, ht', hrelated⟩ := h.run s s' hs hs'
  exact ⟨ht, ht', hR _ _ hrelated⟩

end Agree

end AgentM

open AgentM (Agree)

/-- The agent is in steady surroundings, and certain locks are held. -/
structure AgentState.Rests (P : σ → Prop) (store : Store) (locks : LockTable)
    (s : AgentState σ) : Prop extends s.Stands P store where
  locks_eq : s.registry.locks = locks

/-- What is known of two computations one by one relates their results. -/
theorem AgentM.Agree.of_gives {P : σ → Prop} {P' : σ' → Prop} {store store' : Store}
    {locks locks' : LockTable} {m : AgentM σ α} {m' : AgentM σ' α'} {Q : α → Prop}
    {Q' : α' → Prop} {R : α → α' → Prop} (h : Gives True P store locks m Q locks)
    (h' : Gives True P' store' locks' m' Q' locks') (hR : ∀ x x', Q x → Q' x' → R x x') :
  Agree (·.Rests P store locks) (·.Rests P' store' locks') m m' R
  := by
  constructor
  intro s s' hs hs'
  obtain ⟨ht, hlocks, hQ⟩ := h.run s hs.toStands fun _ => hs.locks_eq
  obtain ⟨ht', hlocks', hQ'⟩ := h'.run s' hs'.toStands fun _ => hs'.locks_eq
  exact ⟨⟨ht, hlocks trivial⟩, ⟨ht', hlocks' trivial⟩, hR _ _ hQ hQ'⟩

theorem Variable.Asks.of_bare_eq {w w' : Variable} {op : Operation} {x : Oid} (h : w.Asks op x)
    (hsame : w.bare = w'.bare) :
  w'.Asks op x
  := by
  obtain ⟨⟩ := w
  obtain ⟨⟩ := w'
  cases hsame
  exact ⟨h.binding, h.scope, h.healthy, h.unread⟩

namespace Request

variable {r r' s : Request} {position : Nat}

theorem exists_next_of_bare_eq {w : Option Variable} (h : r.bare = r'.bare)
    (hnext : r.next position = (w, s)) :
  ∃ w' s', r'.next position = (w', s') ∧ w.map Variable.bare = w'.map Variable.bare
    ∧ s.bare = s'.bare
  := by
  have hbare := r.next_bare position
  rw [h, r'.next_bare, hnext, Prod.mk.injEq] at hbare
  exact ⟨_, _, rfl, hbare.1.symm, hbare.2.symm⟩

/-- Requests that differ in what led to their answers come to the same variable. -/
theorem next_some_of_bare_eq {w : Variable} (h : r.bare = r'.bare)
    (hnext : r.next position = (some w, s)) :
  ∃ w' s', r'.next position = (some w', s') ∧ w.bare = w'.bare ∧ s.bare = s'.bare
  := by
  obtain ⟨w', s', hnext', hvariable, hrequest⟩ := exists_next_of_bare_eq h hnext
  obtain ⟨w', rfl, hbare⟩ := Option.map_eq_some_iff.mp hvariable.symm
  exact ⟨w', s', hnext', hbare.symm, hrequest⟩

/-- Requests that differ in what led to their answers come to their ends together. -/
theorem next_none_of_bare_eq (h : r.bare = r'.bare) (hnext : r.next position = (none, s)) :
  ∃ s', r'.next position = (none, s') ∧ s.bare = s'.bare
  := by
  obtain ⟨w', s', hnext', hvariable, hrequest⟩ := exists_next_of_bare_eq h hnext
  obtain rfl := Option.map_eq_none_iff.mp hvariable.symm
  exact ⟨s', hnext', hrequest⟩

end Request

namespace Agent

variable {a : Agent σ} {a' : Agent σ'} {P : σ → Prop} {P' : σ' → Prop} {store store' : Store}
  {locks locks' : LockTable} {context context' : RequestContext} {v : Sight}

/-- Reads of requests that ask the same go side by side, when each variable is read from the same
sight. -/
theorem agree_readFrom {start : Request} (hnew : start.IsNewRead)
    (hread : ∀ x w, w.Asks start.operation x →
      Gives True P store locks (a.readVariable context w) (v.Reads start.operation w) locks)
    (hread' : ∀ x w, w.Asks start.operation x →
      Gives True P' store' locks' (a'.readVariable context' w) (v.Reads start.operation w) locks')
    (steps position : Nat) {r r' : Request} (hr : start.IsReadTo (fun _ _ => True) position r)
    (hsame : r.bare = r'.bare) :
  Agree (·.Rests P store locks) (·.Rests P' store' locks')
    (a.readFrom context steps position r) (a'.readFrom context' steps position r')
    (fun s s' => s.bare = s'.bare)
  := by
  induction steps generalizing position r r' with
  | zero =>
      rw [readFrom, readFrom]
      apply Agree.pure
      exact hsame
  | succ steps ih =>
      rw [readFrom, readFrom]
      rcases hr.next_cases hnew (fun _ _ _ _ _ _ _ => trivial) with
        ⟨x, w, s, hnext, hat⟩ | ⟨s, hnext, -⟩
      · obtain ⟨w', s', hnext', hvariable, hrequest⟩ := Request.next_some_of_bare_eq hsame hnext
        have hcomplete := congrArg Variable.isComplete hvariable
        change w.isComplete = w'.isComplete at hcomplete
        rw [hnext, hnext']
        dsimp only
        rw [← hcomplete]
        rcases hat.due with hasks | ⟨hdone, -⟩
        · rw [hasks.unread, if_neg Bool.false_ne_true, if_neg Bool.false_ne_true]
          apply (Agree.of_gives (hread x w hasks) (hread' x w' (hasks.of_bare_eq hvariable))
            fun u u' hu hu' => hu.bare_eq hu' hvariable).bind
          intro u u' husame
          apply ih _ (hat.further u trivial)
          rw [Request.modify_bare, Request.modify_bare, hrequest, husame]
        · rw [if_pos hdone, if_pos hdone]
          apply ih _ _ hrequest
          rw [← Request.modify_present hat.present]
          apply hat.further w trivial
      · obtain ⟨s', hnext', hrequest⟩ := Request.next_none_of_bare_eq hsame hnext
        rw [hnext, hnext']
        apply Agree.pure
        exact hrequest

end Agent

/-! ### Sights that agree -/

/-- Objects that differ in denied instances only, and are free or not alike, are seen alike. -/
theorem RequestContext.sight_eq {context : RequestContext} {store : Store}
    {instances instances' : ObjectId → OrderedMap Oid Value} {granted : AccessCheck → Bool}
    {free free' : ObjectId → Bool}
    (hdenied : ∀ object x, granted (context.check .read x) →
      (instances object).get? x = (instances' object).get? x)
    (hfree : ∀ object, free object = free' object) :
  context.sight store instances granted free = context.sight store instances' granted free'
  := by
  have hvalue : (fun object x =>
        if granted (context.check .read x) then (instances object).get? x else none)
      = fun object x =>
        if granted (context.check .read x) then (instances' object).get? x else none := by
    funext object x
    split
    · rename_i hgranted
      apply hdenied object x hgranted
    · rfl
  obtain rfl : free = free' := funext hfree
  simp only [sight, hvalue]

/-! ### How a request is answered -/

namespace Agent

section

variable {a : Agent σ} (context : RequestContext) (pdu : Pdu) (maxSize : Nat) (s : AgentState σ)

/-- What a request is answered that is not refused outright. -/
theorem run_answer :
  let begun := s.inFlight.start s.now a.config.maturity context.principal pdu.requestId
  ((a.answer context pdu maxSize).run s).1
    = if begun.1 then
        let start := Request.create context (s.lastTransaction + 1) pdu maxSize
        let s := { s with inFlight := begun.2, lastTransaction := s.lastTransaction + 1 }
        .ok ((a.perform start).run s).1.response
      else .error (.duplicateRequest pdu.requestId)
  := by
  intro begun
  change ((if begun.1 then _ else _ : AgentM σ (Except Failure Response)).run
    { s with inFlight := begun.2 }).1 = _
  split
  · rfl
  · rfl

theorem run_process :
  ((a.process context pdu maxSize).run s).1
    = if a.config.maxBindings < pdu.bindings.length then
        .error (.tooManyBindings pdu.bindings.length a.config.maxBindings)
      else if !s.registry.supports context.context then
        .error (.unknownContext (context.context.getD []))
      else ((a.answer context pdu maxSize).run s).1
  := by
  change ((if a.config.maxBindings < pdu.bindings.length then
      pure (.error (.tooManyBindings pdu.bindings.length a.config.maxBindings))
    else if !s.registry.supports context.context then
      pure (.error (.unknownContext (context.context.getD [])))
    else a.answer context pdu maxSize : AgentM σ (Except Failure Response)).run s).1 = _
  split
  · rfl
  · split
    · rfl
    · rfl

/-- A request that is answered has been performed. -/
theorem exists_performed {response : Response}
    (hresponse : ((a.process context pdu maxSize).run s).1 = .ok response) :
  ∃ t : AgentState σ, t.surroundings = s.surroundings ∧ t.registry = s.registry
    ∧ ((a.perform (.create context (s.lastTransaction + 1) pdu maxSize)).run t).1.response
      = response
  := by
  rw [run_process] at hresponse
  split at hresponse
  · cases hresponse
  · split at hresponse
    · cases hresponse
    · rw [run_answer] at hresponse
      dsimp only at hresponse
      split at hresponse
      · refine ⟨_, ?_, ?_, Except.ok.inj hresponse⟩
        · rfl
        · rfl
      · cases hresponse

end

end Agent

/-! ### Two agents -/

/-- Two states in which a request is received alike: the same is registered, the same contexts are
supported, the same requests are being answered, and the same objects can be locked. -/
structure AgentState.Resembles (s : AgentState σ) (s' : AgentState σ') : Prop where
  store : s.registry.store = s'.registry.store
  contexts : s.registry.contexts = s'.registry.contexts
  inFlight : s.inFlight = s'.inFlight
  now : s.now = s'.now
  free : ∀ object, s.registry.locks.isFreeFor (s.lastTransaction + 1) object
    = s'.registry.locks.isFreeFor (s'.lastTransaction + 1) object

namespace Agent

variable {a : Agent σ} {a' : Agent σ'} {P : σ → Prop} {P' : σ' → Prop}
  {instances instances' : ObjectId → OrderedMap Oid Value} {granted : AccessCheck → Bool}
  {context : RequestContext} {s : AgentState σ} {s' : AgentState σ'} {pdu : Pdu}

/-- The agent displays instances that lie in the scopes of their registrations, and the search for
what comes next may visit all of them. -/
structure Presents (a : Agent σ) (P : σ → Prop) (instances : ObjectId → OrderedMap Oid Value)
    (granted : AccessCheck → Bool) (context : Context) (s : AgentState σ) : Prop
    extends a.Displays P instances granted where
  surroundings : P s.surroundings
  isReachable : s.IsReachable
  isCounted : s.registry.locks.IsCounted
  encloses : s.registry.store.Encloses context instances
  limit : s.registry.store.extent context instances < a.searchLimit

namespace Presents

/-- The variables of a request are read from what the requester sees. -/
theorem gives_readVariable (h : a.Presents P instances granted (.ofName context.context) s)
    (pdu : Pdu) (maxSize transaction : Nat) :
  let start := Request.create context transaction pdu maxSize
  ∀ x w, w.Asks start.operation x →
    Gives True P s.registry.store s.registry.locks (a.readVariable start.context w)
      ((context.sight s.registry.store instances granted
        (s.registry.locks.isFreeFor transaction)).Reads start.operation w) s.registry.locks
  := by
  intro start x w hasks
  apply h.toDisplays.gives_readVariable h.isCounted h.isReachable.isOrderly start.context h.encloses
    h.limit hasks

/-- A response without a failure has no values but of OIDs that may be read. -/
theorem granted_of_mem (h : a.Presents P instances granted (.ofName context.context) s)
    (hread : pdu.operation.isWrite = false) (maxSize : Nat) {response : Response}
    (hresponse : ((a.process context pdu maxSize).run s).1 = .ok response)
    (hstatus : response.status = .noError) {b : Binding} (hb : b ∈ response.bindings)
    (hvalue : b.isException = false) :
  granted (context.check .read b.oid)
  := by
  let start := Request.create context (s.lastTransaction + 1) pdu maxSize
  let Q : Oid → Variable → Prop := fun _ w =>
    w.status = .noError → w.binding.isException = false → granted (context.check .read w.binding.oid)
  have hgives : Gives True P s.registry.store s.registry.locks (a.perform start)
      (start.IsFinished Q) s.registry.locks := by
    rw [perform_create_read a context _ maxSize hread]
    apply gives_read (Request.isNewRead_create context _ maxSize hread)
    · intro x w hasks
      apply (h.gives_readVariable pdu maxSize _ x w hasks).mono
      intro w' hw'
      exact hw'.readable
    · -- only exceptions are repeated
      intro _ x p index predecessor _ hexception _ hrepeated
      have hbinding : (Variable.repetition index predecessor p).binding = p.binding :=
        if_pos hexception
      rw [hbinding, hexception] at hrepeated
      cases hrepeated
  obtain ⟨t, hsurroundings, hregistry, rfl⟩ := exists_performed context pdu maxSize s hresponse
  have ht : t.Stands P s.registry.store :=
    ⟨by rw [hsurroundings]; exact h.surroundings, by rw [hregistry]⟩
  obtain ⟨-, -, hfinished⟩ := hgives.run t ht fun _ => by rw [hregistry]
  obtain ⟨w, hw, rfl, hhealthy⟩ := Request.exists_of_mem_response hstatus hb
  obtain ⟨x, hQ⟩ := hfinished.exists_of_mem hw
  apply hQ hhealthy hvalue

/-- Two reads of the same request are performed alike, when the requester sees the same. -/
theorem agree_perform (h : a.Presents P instances granted (.ofName context.context) s)
    (h' : a'.Presents P' instances' granted (.ofName context.context) s')
    (hread : pdu.operation.isWrite = false) (maxSize : Nat) {transaction transaction' : Nat}
    (hsight : context.sight s.registry.store instances granted
        (s.registry.locks.isFreeFor transaction)
      = context.sight s'.registry.store instances' granted
        (s'.registry.locks.isFreeFor transaction')) :
  Agree (·.Rests P s.registry.store s.registry.locks)
    (·.Rests P' s'.registry.store s'.registry.locks)
    (a.perform (.create context transaction pdu maxSize))
    (a'.perform (.create context transaction' pdu maxSize))
    (fun r r' => r.response = r'.response)
  := by
  have hnew := Request.isNewRead_create context transaction maxSize hread
  have hsame : (Request.create context transaction pdu maxSize).bare
      = (Request.create context transaction' pdu maxSize).bare := rfl
  have hvariable := h.gives_readVariable pdu maxSize transaction
  have hvariable' := h'.gives_readVariable pdu maxSize transaction'
  rw [← hsight] at hvariable'
  rw [perform_create_read a context _ maxSize hread,
    perform_create_read a' context _ maxSize hread, read, read]
  apply (agree_readFrom hnew hvariable hvariable' _ 0 hnew.isReadTo hsame).mono
  intro r r' hsame
  rw [← r.response_bare, hsame, r'.response_bare]

end Presents

/-- A requester is answered without a trace of what it may not read. -/
theorem denied_leave_no_trace
    (h : a.Presents P instances granted (.ofName context.context) s)
    (h' : a'.Presents P' instances' granted (.ofName context.context) s')
    (hdenied : ∀ object x, granted (context.check .read x) →
      (instances object).get? x = (instances' object).get? x)
    (hresembles : s.Resembles s') (hconfig : a.config = a'.config)
    (hread : pdu.operation.isWrite = false) (maxSize : Nat) :
  ((a.process context pdu maxSize).run s).1 = ((a'.process context pdu maxSize).run s').1
    ∧ ∀ response, ((a.process context pdu maxSize).run s).1 = .ok response →
      response.status = .noError → ∀ b ∈ response.bindings, b.isException = false →
        granted (context.check .read b.oid)
  := by
  constructor
  · have hsupports : s.registry.supports context.context
        = s'.registry.supports context.context := by
      rw [Registry.supports.eq_def, Registry.supports.eq_def, hresembles.contexts]
    have hsight : context.sight s.registry.store instances granted
          (s.registry.locks.isFreeFor (s.lastTransaction + 1))
        = context.sight s'.registry.store instances' granted
          (s'.registry.locks.isFreeFor (s'.lastTransaction + 1)) := by
      rw [hresembles.store]
      apply RequestContext.sight_eq hdenied hresembles.free
    have hagree := h.agree_perform h' hread maxSize hsight
    have hresponses := fun inFlight inFlight' => (hagree.run
      { s with inFlight, lastTransaction := s.lastTransaction + 1 }
      { s' with inFlight := inFlight', lastTransaction := s'.lastTransaction + 1 }
      ⟨⟨h.surroundings, rfl⟩, rfl⟩ ⟨⟨h'.surroundings, rfl⟩, rfl⟩).2.2
    have hstart : s.inFlight.start s.now a.config.maturity
        = s'.inFlight.start s'.now a'.config.maturity := by
      rw [hresembles.inFlight, hresembles.now, hconfig]
    rw [run_process, run_process, hconfig, hsupports, run_answer, run_answer, hstart]
    dsimp only at hresponses ⊢
    rw [hresponses]
  · intro response hresponse hstatus b hb hvalue
    apply h.granted_of_mem hread maxSize hresponse hstatus hb hvalue

end Agent

namespace Shelves

/-- Pairs of shelves without the second instance of the first one. -/
def thinned (number : ObjectId) : Shelf where
  scope := (pairs number).scope
  instances := if number = 1 then .ofList [(first 1, .integer 5)] else (pairs number).instances

theorem get?_thinned {number : ObjectId} {x : Oid} (hx : x ≠ second 1) :
  (pairs number).instances.get? x = (thinned number).instances.get? x
  := by
  rw [thinned]
  split
  · rename_i hnumber
    rw [hnumber]
    simp only [pairs, OrderedMap.ofList, List.foldl_cons, List.foldl_nil, OrderedMap.get?_insert]
    rw [if_neg (mt Std.LawfulEqOrd.eq_of_compare hx)]
  · rfl

theorem presents_agent {shelves : ObjectId → Shelf} {granted : AccessCheck → Bool}
    {changes : List Store.Change} {context : Context}
    (hencloses : (Store.after changes).Encloses context fun number => (shelves number).instances)
    (hlimit : (Store.after changes).extent context (fun number => (shelves number).instances)
      < 4294967296) :
  (agent shelves granted).Presents (fun _ => True) (fun number => (shelves number).instances)
    granted context (stocked changes)
  where
  toOffers := offers_agent shelves granted
  waits _ _ _ _ _ := ⟨fun _ hs => hs⟩
  surroundings := trivial
  isReachable := isReachable_stocked changes
  isCounted := LockTable.IsCounted.empty
  encloses := hencloses
  limit := hlimit

end Shelves

namespace Agent

/-- A bulk read does not tell whether there is an instance that may not be read. -/
theorem thinned_leave_no_trace :
  let granted := fun check : AccessCheck => check.oid != Shelves.second 1
  let a := Shelves.agent Shelves.pairs granted
  let a' := Shelves.agent Shelves.thinned granted
  let s := Shelves.stocked [Shelves.placed Shelves.pairs none 1, Shelves.placed Shelves.pairs none 2]
  let context := RequestContext.ofVersion .v2c
  let pdu : Pdu :=
    { Pdu.asking .getBulk 1 [Shelves.first 1, Shelves.second 1] with maxRepetitions := 3 }
  ((a.process context pdu 500).run s).1 = ((a'.process context pdu 500).run s).1
    ∧ ∀ response, ((a.process context pdu 500).run s).1 = .ok response →
      response.status = .noError → ∀ b ∈ response.bindings, b.isException = false →
        granted (context.check .read b.oid)
  := by
  intro granted a a' s context pdu
  have h : a.Presents (fun _ => True) (fun number => (Shelves.pairs number).instances) granted
      (.ofName context.context) s :=
    Shelves.presents_agent (Store.encloses_iff.mpr (by decide +kernel)) (by decide +kernel)
  have h' : a'.Presents (fun _ => True) (fun number => (Shelves.thinned number).instances) granted
      (.ofName context.context) s :=
    Shelves.presents_agent (Store.encloses_iff.mpr (by decide +kernel)) (by decide +kernel)
  apply denied_leave_no_trace h h' _ ⟨rfl, rfl, rfl, rfl, fun _ => rfl⟩ rfl rfl 500
  intro object x hgranted
  apply Shelves.get?_thinned
  apply bne_iff_ne.mp hgranted

end Agent

end MibAgent
