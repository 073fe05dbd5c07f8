import MibAgent.Proofs.Instances
import MibAgent.Proofs.Reading

/-!
# Reading one instance

What a request for a single OID is answered, when nobody else holds a lock: the value that the
object registered for the OID has for it, or what a search for the next instance comes to.
-/

namespace MibAgent

open AgentM (IsQuiet Gives)
open Agent (NextOutcome recordNext queryFor isUnspeakable)

variable {σ : Type}

/-! ### Single requests -/

namespace Request

/-- The answer to a request for a single OID, unless it failed. -/
def answer? (r : Request) : Option Binding :=
  match r.status, r.bindings with
  | .noError, [b] => some b
  | _, _ => none

theorem answer?_of_single {r : Request} {v : Variable} (h : r.vars = #[v]) :
  r.answer? = if v.status = .noError then some v.binding else none
  := by
  have hbindings : r.bindings = [v.binding] := by rw [bindings, h]; rfl
  have hstatus : r.status = v.status := by
    have hfind : r.firstError? = if v.hasError then some v else none := by
      rw [firstError?, h, ← Array.find?_toList, List.find?_singleton]
    rw [status, hfind]
    split
    · rfl
    · rename_i hhealthy
      rw [Bool.not_eq_true, Variable.hasError] at hhealthy
      cases hv : v.status with
      | noError => rfl
      | _ => rw [hv] at hhealthy; cases hhealthy
  rw [answer?, hbindings, hstatus]
  split
  · rename_i hnoError heq
    rw [if_pos hnoError]
    cases heq
    rfl
  · rename_i hother
    rw [if_neg]
    intro hnoError
    apply hother _ hnoError rfl

theorem oid_askedFor (op : Operation) (index : Nat) (b : Binding) :
  (askedFor op index b).binding.oid = b.oid
  := by
  rw [askedFor]
  split
  · rfl
  · rfl

theorem create_asking (context : RequestContext) (transaction : Nat) {op : Operation}
    (h : op ≠ .getBulk) (requestId : Int32) (x : Oid) (maxSize : Nat) :
  let start := create context transaction (.asking op requestId [x]) maxSize
  start.vars = #[askedFor op 0 (.ask x)] ∧ start.repeaters = 0
  := by
  cases op with
  | getBulk => apply absurd rfl h
  | get | getNext | set => exact ⟨rfl, rfl⟩

end Request

/-- The answer to someone who asked for what comes after an OID. -/
def Agent.NextOutcome.answer? (x : Oid) : NextOutcome → Option Binding
  | .endOfView => some ⟨x, .endOfMibView⟩
  | .unavailable _ => none
  | .found _ _ b => some b
  | .unfinished => some (.ask x)

namespace Seeks

variable {c : Circumstances} {visits : Nat} {range : Scope} {o o' : NextOutcome}

/-- How a search goes on from the first registration in its range. -/
theorem of_first (h : Seeks c (visits + 1) range o) (havailable : o.isAvailable) {e : Entry}
    (hfirst : c.first range = some e) :
  ∃ r, c.answers e.object range r ∧
    match c.step range r with
    | .answer b => ∃ query, o = .found e query b
    | .restart x => Seeks c visits (range.restart x) o
    | .moveOn =>
      match range.past e.scope.scope with
      | .error _ => o = .endOfView
      | .ok beyond => Seeks c visits beyond o
  := by
  cases h with
  | nothing first => cases first.symm.trans hfirst
  | unavailable first => cases havailable
  | @found _ _ e' r b query first answers step window =>
      cases first.symm.trans hfirst
      refine ⟨r, answers, ?_⟩
      rw [step]
      exact ⟨query, rfl⟩
  | @denied _ _ e' r x _ first answers step rest =>
      cases first.symm.trans hfirst
      refine ⟨r, answers, ?_⟩
      rw [step]
      exact rest
  | @ended _ _ e' r fault first answers step past =>
      cases first.symm.trans hfirst
      refine ⟨r, answers, ?_⟩
      rw [step, past]
  | @passed _ _ beyond e' r _ first answers step past rest =>
      cases first.symm.trans hfirst
      refine ⟨r, answers, ?_⟩
      rw [step, past]
      exact rest

/-- Where no registration is left, a search has come to its end. -/
theorem eq_endOfView (h : Seeks c (visits + 1) range o) (hfirst : c.first range = none) :
  o = .endOfView
  := by
  cases h with
  | nothing _ => rfl
  | unavailable first | found first | denied first | ended first | passed first =>
      cases first.symm.trans hfirst

/-- Where an object can give one answer only, all searches come to the same. -/
theorem answer_eq (h : Seeks c visits range o) (h' : Seeks c visits range o')
    (hsame : ∀ object range r r', c.answers object range r → c.answers object range r' → r = r')
    (havailable : o.isAvailable) (havailable' : o'.isAvailable) (x : Oid) :
  o.answer? x = o'.answer? x
  := by
  induction h with
  | unfinished =>
      cases h'
      rfl
  | nothing first => rw [h'.eq_endOfView first]
  | unavailable first => cases havailable
  | found first answers step window =>
      obtain ⟨r', answers', hgoes⟩ := h'.of_first havailable' first
      rw [hsame _ _ _ _ answers' answers, step] at hgoes
      obtain ⟨query', rfl⟩ := hgoes
      rfl
  | denied first answers step rest ih =>
      obtain ⟨r', answers', hgoes⟩ := h'.of_first havailable' first
      rw [hsame _ _ _ _ answers' answers, step] at hgoes
      apply ih hgoes havailable
  | ended first answers step past =>
      obtain ⟨r', answers', hgoes⟩ := h'.of_first havailable' first
      rw [hsame _ _ _ _ answers' answers, step, past] at hgoes
      rw [hgoes]
  | passed first answers step past rest ih =>
      obtain ⟨r', answers', hgoes⟩ := h'.of_first havailable' first
      rw [hsame _ _ _ _ answers' answers, step, past] at hgoes
      apply ih hgoes havailable

end Seeks

/-- A variable that asked for what comes after an OID has the answer to that. -/
theorem Variable.Asks.answer_recordNext {v : Variable} {op : Operation} {x : Oid} (h : v.Asks op x)
    (o : NextOutcome) :
  (if (recordNext v o).status = .noError then some (recordNext v o).binding else none)
    = o.answer? x
  := by
  have hoid : v.binding.oid = x := by rw [h.binding]; rfl
  cases o with
  | endOfView => rw [recordNext, answerValue, hoid]; exact if_pos h.healthy
  | unavailable e => rfl
  | found e query b => exact if_pos h.healthy
  | unfinished => rw [recordNext, h.binding]; exact if_pos h.healthy

namespace Agent

/-- Asks for the value of an OID, or for what comes after it, by a request of its own. -/
def ask (a : Agent σ) (operation : Operation) (context : RequestContext) (maxSize : Nat)
    (x : Oid) : AgentM σ Request := do
  let request ← openRequest context (.asking operation context.requestId [x]) maxSize
  a.perform request

variable {a : Agent σ} {P : σ → Prop} {answers : ObjectId → ContextScope → NextResult → Prop}
  {granted : AccessCheck → Bool} {free : Prop} {store : Store} {locks : LockTable}

/-- What comes after OIDs is sought for each variable. -/
theorem Reads.gives_performNext (h : a.Reads P answers granted) (context : RequestContext)
    (transaction : Nat) {pdu : Pdu} (maxSize : Nat) (hnext : pdu.operation.isNext)
    (hopen : free → locks.IsOpenTo transaction) {Q : Oid → Variable → Prop}
    (hsearch : ∀ op x v o, v.Asks op x →
      Seeks (context.circumstances store answers granted) a.searchLimit (.after x) o →
      (free → o.isAvailable) → Q x (recordNext v o))
    (hrepetition : 0 < (Request.create context transaction pdu maxSize).repeaters →
      ∀ x p index predecessor, Q x p → p.binding.isException →
        Q p.binding.oid (.repetition index predecessor p)) :
  let start := Request.create context transaction pdu maxSize
  Gives free P store locks (a.perform start) (start.IsFinished Q) locks
  := by
  intro start
  have hstart : start.operation.isNext := Request.isNext_create context transaction maxSize hnext
  have hread := Operation.isWrite_of_isNext hnext
  rw [perform_create_read a context transaction maxSize hread]
  apply gives_read (Request.isNewRead_create context transaction maxSize hread)
  · intro x v hasks
    have hscope : v.scope = .after x := by rw [hasks.scope, if_pos hstart]
    have hvariable : a.readVariable start.context v = a.readNext start.context v := if_pos hstart
    change Gives free P store locks (a.readVariable start.context v) (Q x) locks
    rw [hvariable]
    apply (h.gives_searchNext start.context hopen a.searchLimit (queryFor start.context v false)
      rfl).bind
    rintro o ⟨hseeks, havailable⟩
    apply Gives.pure
    change Seeks _ _ v.scope o at hseeks
    rw [hscope] at hseeks
    apply hsearch _ x v o hasks hseeks havailable
  · apply hrepetition

/-- The agent reads as it should, and every object answers by the instances of a finite map. -/
structure Offers (a : Agent σ) (P : σ → Prop) (instances : ObjectId → OrderedMap Oid Value)
    (granted : AccessCheck → Bool) : Prop
    extends a.Reads P (fun object window r => r = .within window.scope (instances object))
      granted where
  get : ∀ object context x, IsQuiet P ((a.object object).get context x)
  gets : ∀ object context x s, P s.surroundings →
    (((a.object object).get context x).run s).1 = .ofOption ((instances object).get? x)

end Agent

/-! ### Values -/

/-- The registration from which a requester is given the value of an OID. -/
def RequestContext.source? (context : RequestContext) (store : Store)
    (granted : AccessCheck → Bool) (x : Oid) : Option Entry :=
  if granted (context.check .read x) then store.entryAt? (.ofName context.context) x else none

/-- The value that a requester is given for an OID. -/
def RequestContext.valueOf (context : RequestContext) (store : Store)
    (instances : ObjectId → OrderedMap Oid Value) (granted : AccessCheck → Bool) (x : Oid) :
    Value :=
  match context.source? store granted x with
  | none => .noSuchObject
  | some e => (ReadResult.ofOption ((instances e.object).get? x)).toValue

namespace RequestContext

/-- The binding is an instance of the registration from which the requester is given the value of
its OID. -/
def GetsInstance (context : RequestContext) (store : Store)
    (instances : ObjectId → OrderedMap Oid Value) (granted : AccessCheck → Bool) (b : Binding) :
    Prop :=
  ∃ e, context.source? store granted b.oid = some e
    ∧ (instances e.object).get? b.oid = some b.value

variable {context : RequestContext} {store : Store} {instances : ObjectId → OrderedMap Oid Value}
  {granted : AccessCheck → Bool} {b : Binding}

theorem GetsInstance.valueOf_eq (h : context.GetsInstance store instances granted b) :
  context.valueOf store instances granted b.oid = b.value
  := by
  obtain ⟨e, hsource, hinstance⟩ := h
  rw [valueOf, hsource]
  dsimp only
  rw [hinstance]
  rfl

/-- What is no exception has been given for an instance. -/
theorem getsInstance_of_valueOf (h : context.valueOf store instances granted b.oid = b.value)
    (hvalue : b.isException = false) :
  context.GetsInstance store instances granted b
  := by
  rw [Binding.isException, ← h, valueOf] at hvalue
  rw [valueOf] at h
  cases hsource : context.source? store granted b.oid with
  | none =>
      rw [hsource] at hvalue
      cases hvalue
  | some e =>
      rw [hsource] at h hvalue
      dsimp only at h hvalue
      use e, hsource
      cases hinstance : (instances e.object).get? b.oid with
      | none =>
          rw [hinstance] at hvalue
          cases hvalue
      | some v =>
          rw [hinstance] at h
          rw [← h]
          rfl

end RequestContext

/-- The variable has been read: the requester has been given the value of an OID, unless it cannot
be given in the version of the protocol. -/
structure Variable.Holds (w : Variable) (context : RequestContext) (store : Store)
    (instances : ObjectId → OrderedMap Oid Value) (granted : AccessCheck → Bool) (x : Oid) :
    Prop where
  target : ∀ e, context.source? store granted x = some e → w.target = some e
  given : isUnspeakable context (context.valueOf store instances granted x) = false →
    w.status = .noError ∧ w.binding = ⟨x, context.valueOf store instances granted x⟩

namespace Variable

variable {context : RequestContext} {store : Store} {instances : ObjectId → OrderedMap Oid Value}
  {granted : AccessCheck → Bool} {x : Oid} {v : Variable}

/-- An OID from no registration has no object. -/
theorem holds_absent (hv : v.status = .noError) (hoid : v.binding.oid = x)
    (hsource : context.source? store granted x = none) :
  (v.answerValue .noSuchObject).Holds context store instances granted x
  where
  target := by
    rw [hsource]
    nofun
  given _ := by
    rw [answerValue, hoid, RequestContext.valueOf, hsource]
    exact ⟨hv, rfl⟩

/-- What is given for an OID is the answer, unless it cannot be given. -/
theorem holds_present (hv : v.status = .noError) (hoid : v.binding.oid = x) {e : Entry}
    (htarget : v.target = some e) (hsource : context.source? store granted x = some e) :
  (if isUnspeakable context (context.valueOf store instances granted x) then v.fail .noSuchName
    else v.answerValue (context.valueOf store instances granted x)).Holds context store instances
      granted x
  := by
  constructor
  · intro e' he'
    rw [← he', hsource, ← htarget]
    split
    · rfl
    · rfl
  · intro hspeakable
    rw [if_neg (by rw [hspeakable]; exact Bool.false_ne_true), answerValue, hoid]
    exact ⟨hv, rfl⟩

end Variable

namespace Agent

variable {a : Agent σ} {P : σ → Prop} {instances : ObjectId → OrderedMap Oid Value}
  {granted : AccessCheck → Bool} {store : Store} {locks : LockTable}

/-- A variable is read from the registration of its OID. -/
theorem Offers.gives_readExact (h : a.Offers P instances granted) {context : RequestContext}
    (hopen : locks.IsOpenTo context.transaction) {op : Operation} {x : Oid} {v : Variable}
    (hasks : v.Asks op x) (hscope : v.scope = .exact x) :
  Gives True P store locks (a.readExact context v)
    (·.Holds context store instances granted x) locks
  := by
  have hoid : v.binding.oid = x := by rw [hasks.binding]; rfl
  have hwindow : (queryFor context v false).window = ⟨.ofName context.context, .exact x⟩ := by
    rw [← hscope]
    rfl
  rw [readExact, hoid]
  apply (h.gives_access _).bind_eq
  cases hgranted : granted (context.check .read x) with
  | false =>
      apply Gives.pure
      apply Variable.holds_absent hasks.healthy hoid
      rw [RequestContext.source?, hgranted]
      rfl
  | true =>
      have hsource : (store.candidates (queryFor context v false).window false).head?
          = context.source? store granted x := by
        rw [RequestContext.source?, hgranted, hwindow]
        rfl
      apply (h.gives_find (queryFor context v false)).bind_eq
      rw [hsource]
      cases hentry : context.source? store granted x with
      | none =>
          apply Gives.pure
          apply Variable.holds_absent hasks.healthy hoid hentry
      | some e =>
          have hget : ∀ locks, Gives True P store locks ((a.object e.object).get context x)
              (·.toValue = context.valueOf store instances granted x) locks := by
            intro locks
            apply Gives.of_isQuiet (h.get e.object context x)
            intro s hs
            rw [h.gets e.object context x s hs, RequestContext.valueOf, hentry]
          apply (h.gives_lockFor context e.object fun _ => hopen).bind
          intro locked hlocked
          cases hlocked trivial
          apply (hget _).bind
          intro result hresult
          apply (gives_unlockFor context e.object fun _ => hopen.unlock_attempt e.object).bind
          intro _ _
          rw [hresult, ← apply_ite pure]
          apply Gives.pure
          apply Variable.holds_present (v := { v with query := some _, target := some e })
            hasks.healthy hoid rfl hentry

/-! ### Requests for one instance -/

/-- When a request for a single OID has been carried out, its only variable has been read. -/
theorem run_ask {op : Operation} (hop : op ≠ .getBulk) (context : RequestContext) (maxSize : Nat)
    (x : Oid) {s : AgentState σ} (hs : s.Stands P store) {Q : Oid → Variable → Prop}
    (hperform :
      let pdu := Pdu.asking op context.requestId [x]
      let start := Request.create context (s.lastTransaction + 1) pdu maxSize
      Gives True P store s.registry.locks (a.perform start) (start.IsFinished Q)
        s.registry.locks) :
  let run := (a.ask op context maxSize x).run s
  run.2.Stands P store ∧ run.2.registry.locks = s.registry.locks
    ∧ ∃ w, run.1.vars = #[w] ∧ Q x w
  := by
  intro run
  obtain ⟨hstands, hlocks, hfinished⟩ := hperform.run
    { s with lastTransaction := s.lastTransaction + 1 } ⟨hs.surroundings, hs.registrations⟩
    fun _ => rfl
  obtain ⟨hvars, hrepeaters⟩ := Request.create_asking context (s.lastTransaction + 1) hop
    context.requestId x maxSize
  obtain ⟨w, hw, hQ⟩ := hfinished.eq_single hvars hrepeaters
  rw [Request.oid_askedFor] at hQ
  exact ⟨hstands, hlocks trivial, w, hw, hQ⟩

/-- A request for what comes after an OID is answered by what a search comes to. -/
theorem Reads.run_ask_getNext {answers : ObjectId → ContextScope → NextResult → Prop}
    (h : a.Reads P answers granted) (context : RequestContext) (maxSize : Nat) (x : Oid)
    {s : AgentState σ} (hs : s.Stands P store)
    (hopen : s.registry.locks.IsOpenTo (s.lastTransaction + 1)) :
  let run := (a.ask .getNext context maxSize x).run s
  run.2.Stands P store ∧ run.2.registry.locks = s.registry.locks
    ∧ ∃ o, Seeks (context.circumstances store answers granted) a.searchLimit (.after x) o
      ∧ o.isAvailable ∧ run.1.answer? = o.answer? x
  := by
  intro run
  let Q : Oid → Variable → Prop := fun y w => ∃ op v o, v.Asks op y
    ∧ Seeks (context.circumstances store answers granted) a.searchLimit (.after y) o
    ∧ o.isAvailable ∧ recordNext v o = w
  have hop : Operation.getNext ≠ .getBulk := by decide
  obtain ⟨hstands, hlocks, w, hvars, op, v, o, hasks, hseeks, havailable, rfl⟩ :=
    run_ask (Q := Q) hop context maxSize x hs <| by
      apply h.gives_performNext context _ maxSize rfl fun _ => hopen
      · intro op y v o hasks hseeks havailable
        exact ⟨op, v, o, hasks, hseeks, havailable trivial, rfl⟩
      · nofun
  refine ⟨hstands, hlocks, o, hseeks, havailable, ?_⟩
  rw [Request.answer?_of_single hvars, hasks.answer_recordNext]

/-- A request for the value of an OID is answered from the registration of the OID. -/
theorem Offers.run_ask_get (h : a.Offers P instances granted) (context : RequestContext)
    (maxSize : Nat) (x : Oid) {s : AgentState σ} (hs : s.Stands P store)
    (hopen : s.registry.locks.IsOpenTo (s.lastTransaction + 1)) :
  let run := (a.ask .get context maxSize x).run s
  ∃ w, run.1.vars = #[w] ∧ w.Holds context store instances granted x
  := by
  intro run
  have hop : Operation.get ≠ .getBulk := by decide
  obtain ⟨-, -, hw⟩ := run_ask (Q := fun y w => w.Holds context store instances granted y)
    hop context maxSize x hs <| by
      intro pdu start
      change Gives True P store _ (a.read start) _ _
      apply gives_read (Request.isNewRead_create context _ maxSize rfl)
      · intro y v hasks
        apply (h.gives_readExact hopen hasks hasks.scope).mono
        intro w hw
        exact ⟨hw.target, hw.given⟩
      · nofun
  exact hw

end Agent

/-! ### When nobody holds a lock -/

/-- The agent is in steady surroundings, and nobody holds a lock. -/
structure AgentState.IsIdle (P : σ → Prop) (store : Store) (s : AgentState σ) : Prop
    extends s.Stands P store where
  unlocked : s.registry.locks = .empty

theorem AgentState.IsIdle.isOpenTo {P : σ → Prop} {store : Store} {s : AgentState σ}
    (h : s.IsIdle P store) (owner : LockOwner) :
  s.registry.locks.IsOpenTo owner
  := by
  rw [h.unlocked]
  apply LockTable.isOpenTo_empty

/-- What the search for a requester depends on, where every object answers by its instances. -/
def RequestContext.outlook (context : RequestContext) (store : Store)
    (instances : ObjectId → OrderedMap Oid Value) (granted : AccessCheck → Bool) :
    Circumstances :=
  context.circumstances store (fun object window r => r = .within window.scope (instances object))
    granted

/-- Unless a version has no 64-bit counters, what a requester may be given is a matter of access. -/
theorem RequestContext.allowed_outlook {context : RequestContext}
    (hversion : context.version.isLegacy = false) (store : Store)
    (instances : ObjectId → OrderedMap Oid Value) (granted : AccessCheck → Bool) (b : Binding) :
  (context.outlook store instances granted).allowed b = granted (context.check .read b.oid)
  := by
  change (granted _ && !(context.version.isLegacy && _)) = _
  rw [hversion, Bool.false_and, Bool.not_false, Bool.and_true]

/-- What a search comes to does not depend on how it goes. -/
theorem Circumstances.Leads.answer_eq {c : Circumstances}
    {instances : ObjectId → OrderedMap Oid Value} {x : Oid} {o o' : NextOutcome}
    (h : c.Leads instances (.after x) o) (h' : c.Leads instances (.after x) o') :
  o.answer? x = o'.answer? x
  := by
  cases h with
  | endOfView nothing =>
      cases h' with
      | endOfView _ => rfl
      | found shows _ inside _ =>
          rw [nothing _ _ shows] at inside
          cases inside
  | @found _ _ b shows _ inside least =>
      cases h' with
      | endOfView nothing =>
          rw [nothing _ _ shows] at inside
          cases inside
      | @found _ _ b' shows' _ inside' least' =>
          obtain ⟨y, v⟩ := b
          obtain ⟨y', v'⟩ := b'
          cases le_antisymm (least y' v' shows' inside') (least' y v shows inside)
          cases shows.eq_value shows'
          rfl

namespace Agent

variable {a : Agent σ} {P : σ → Prop} {instances : ObjectId → OrderedMap Oid Value}
  {granted : AccessCheck → Bool} {store : Store}

/-- When nobody holds a lock, a request for what comes after an OID leads to the first instance that
is shown after it. The search is not given up when it may visit as many registrations as there are,
each as often as it has instances and once more. -/
theorem Offers.ask_leads (h : a.Offers P instances granted) (context : RequestContext)
    (maxSize : Nat) (x : Oid) (hstore : store.IsReachable)
    (hencloses : store.Encloses (.ofName context.context) instances)
    (hlimit : store.extent (.ofName context.context) instances < a.searchLimit)
    {s : AgentState σ} (hs : s.IsIdle P store) :
  let run := (a.ask .getNext context maxSize x).run s
  run.2.IsIdle P store
    ∧ ∃ o, (context.outlook store instances granted).Leads instances (.after x) o
      ∧ run.1.answer? = o.answer? x
  := by
  intro run
  obtain ⟨hstands, hlocks, o, hseeks, havailable, hanswer⟩ :=
    h.run_ask_getNext context maxSize x hs.toStands (hs.isOpenTo _)
  have htruthful : (context.outlook store instances granted).IsTruthful instances :=
    fun _ _ _ hr => hr
  have hfinished := hseeks.ne_unfinished hstore.isOrderly htruthful rfl hlimit
  refine ⟨⟨hstands, hlocks.trans hs.unlocked⟩, o, ?_, hanswer⟩
  apply hseeks.leads hstore.isOrderly htruthful hencloses rfl havailable hfinished

end Agent

end MibAgent
