import MibAgent.Proofs.Shelves

/-!
# Narrowed registrations

What comes next is read from a registration, which is recorded with the answer. As long as the
registration contains the OID of the answer, a request for the value of that OID is answered from the
same registration, with the same value. An object whose registration has been narrowed is still asked
for what comes next in the whole range of the search, so it may answer with an instance that is
beyond its registration, and for which another registration answers.
-/

namespace MibAgent

open Agent (recordNext isUnspeakable)

variable {σ : Type}

/-- The variable has failed, has an exception for an answer, or has the answer of an object that is
seen in the context, one that the requester may be given. -/
inductive Variable.Comes (c : Circumstances) (instances : ObjectId → OrderedMap Oid Value)
    (v : Variable) : Prop where
  | failed (error : v.hasError)
  | exception (exception : v.binding.isException)
  | found {e : Entry} (target : v.target = some e) (visible : e ∈ c.visible)
    (instance' : (instances e.object).get? v.binding.oid = some v.binding.value)
    (allowed : c.allowed v.binding)
    (answers : e.scope.scope.contains v.binding.oid →
      c.first (.exact v.binding.oid) = some e)

namespace Agent

variable {a : Agent σ} {P : σ → Prop} {instances : ObjectId → OrderedMap Oid Value}
  {granted : AccessCheck → Bool} {store : Store}

/-- All variables of a request for what comes next are complete, and each has failed, has come to an
end, or has an answer. -/
theorem Offers.run_perform_next (h : a.Offers P instances granted) (context : RequestContext)
    {pdu : Pdu} (hnext : pdu.operation.isNext) (maxSize : Nat) (hstore : store.IsReachable)
    (hlimit : store.extent (.ofName context.context) instances < a.searchLimit)
    {s : AgentState σ} (hs : s.Stands P store) :
  ∀ v ∈ ((openRequest context pdu maxSize >>= a.perform).run s).1.vars, v.isComplete
    ∧ v.Comes (context.outlook store instances granted) instances
  := by
  let c := context.outlook store instances granted
  let Q : Oid → Variable → Prop := fun _ v => v.isComplete ∧ v.Comes c instances
  let start := Request.create context (s.lastTransaction + 1) pdu maxSize
  have hgives : AgentM.Gives False P store .empty (a.perform start) (start.IsFinished Q) .empty := by
    apply h.gives_performNext context _ maxSize hnext nofun
    · intro op x v o hasks hseeks _
      have htruthful : c.IsTruthful instances := fun _ _ _ hr => hr
      have hfinished := hseeks.ne_unfinished hstore.isOrderly htruthful rfl hlimit
      cases o with
      | unfinished => apply absurd rfl hfinished
      | unavailable e => exact ⟨rfl, .failed rfl⟩
      | endOfView => exact ⟨rfl, .exception rfl⟩
      | found e query b =>
          obtain ⟨hvisible, hinstance, hallowed, hfirst⟩ :=
            hseeks.found_spec hstore.isOrderly htruthful rfl
          exact ⟨rfl, .found rfl hvisible hinstance hallowed hfirst⟩
    · intro _ x p index predecessor _ hexception
      have hrepeated : (Variable.repetition index predecessor p).binding = p.binding :=
        if_pos hexception
      refine ⟨hexception, .exception ?_⟩
      rw [hrepeated, hexception]
  intro v hv
  obtain ⟨-, -, hfinished⟩ := hgives.run { s with lastTransaction := s.lastTransaction + 1 }
    ⟨hs.surroundings, hs.registrations⟩ nofun
  obtain ⟨i, hi, rfl⟩ := Array.mem_iff_getElem.mp hv
  obtain ⟨x, w, -, hw, hQ⟩ := hfinished.read i hi
  cases (Array.getElem?_eq_getElem hi).symm.trans hw
  apply hQ

/-- Every variable of a request for what comes next is complete. Unless it has failed or come to an
end, it has an instance of the object that is recorded with it. The instance lies in the scope that
the object is registered for if all of its instances do. If it does, then a request for the value of
the OID, when nobody holds a lock, is answered from the same registration with the same value. -/
theorem next_from_registration (h : a.Offers P instances granted) (context : RequestContext)
    {pdu : Pdu} (hnext : pdu.operation.isNext) (maxSize : Nat) {s : AgentState σ}
    (hreachable : s.IsReachable) (hs : P s.surroundings)
    (hlimit : s.registry.store.extent (.ofName context.context) instances < a.searchLimit) :
  let store := s.registry.store
  ∀ v ∈ ((openRequest context pdu maxSize >>= a.perform).run s).1.vars, v.isComplete
    ∧ (v.hasError ∨ v.binding.isException
      ∨ ∃ e ∈ store.visible (.ofName context.context) false, v.target = some e
        ∧ (instances e.object).get? v.binding.oid = some v.binding.value
        ∧ (e.Encloses instances → e.scope.scope.contains v.binding.oid)
        ∧ (e.scope.scope.contains v.binding.oid → ∀ t, t.IsIdle P store →
          ∃ w, ((a.ask .get context maxSize v.binding.oid).run t).1.vars = #[w]
            ∧ w.target = some e ∧ w.status = .noError ∧ w.binding = v.binding))
  := by
  intro store v hv
  obtain ⟨hcomplete, hcomes⟩ :=
    h.run_perform_next context hnext maxSize hreachable hlimit ⟨hs, rfl⟩ v hv
  use hcomplete
  cases hcomes with
  | failed error => exact .inl error
  | exception exception => exact .inr (.inl exception)
  | @found e target visible hinstance allowed answers =>
      right
      right
      refine ⟨e, visible, target, hinstance, fun hwhole => hwhole _ _ hinstance, ?_⟩
      intro hcontains t ht
      obtain ⟨w, hvars, hholds⟩ :=
        h.run_ask_get context maxSize v.binding.oid ht.toStands (ht.isOpenTo _)
      obtain ⟨hgranted, hspeakable⟩ := Bool.and_eq_true_iff.mp allowed
      have hsource : context.source? store granted v.binding.oid = some e := by
        rw [RequestContext.source?, if_pos hgranted]
        apply answers hcontains
      have hgets : context.GetsInstance store instances granted v.binding := ⟨e, hsource, hinstance⟩
      have hvalue := hgets.valueOf_eq
      rw [Bool.not_eq_true', ← hvalue] at hspeakable
      obtain ⟨hstatus, hbinding⟩ := hholds.given hspeakable
      refine ⟨w, hvars, hholds.target e hsource, hstatus, ?_⟩
      rw [hbinding, hvalue]

/-- What comes after the first instance of a shelf is its second instance, and a request for that is
answered from the same shelf. -/
theorem pairs_next :
  let a := Shelves.agent Shelves.pairs fun _ => true
  let s := Shelves.stocked
    [Shelves.placed Shelves.pairs none 1, Shelves.placed Shelves.pairs none 2]
  let pdu : Pdu := .asking .getNext 1 [Shelves.first 1]
  ∀ v ∈ ((openRequest (.ofVersion .v2c) pdu 100 >>= a.perform).run s).1.vars, v.isComplete
    ∧ (v.hasError ∨ v.binding.isException ∨ ∃ e, v.target = some e
      ∧ e.scope.scope.contains v.binding.oid
      ∧ ∃ w, ((a.ask .get (.ofVersion .v2c) 100 v.binding.oid).run s).1.vars = #[w]
        ∧ w.target = some e ∧ w.status = .noError ∧ w.binding = v.binding)
  := by
  intro a s pdu v hv
  have hreachable : s.IsReachable := Shelves.isReachable_stocked _
  have hencloses : s.registry.store.Encloses none fun number => (Shelves.pairs number).instances :=
    Store.encloses_iff.mpr (by decide +kernel)
  have hnext : pdu.operation.isNext := rfl
  obtain ⟨hcomplete, hcomes⟩ := next_from_registration
    (Shelves.offers_agent Shelves.pairs fun _ => true) (.ofVersion .v2c) hnext 100 hreachable
    trivial (by decide +kernel) v hv
  use hcomplete
  apply hcomes.imp_right
  apply Or.imp_right
  rintro ⟨e, hvisible, htarget, -, hinside, hget⟩
  have hcontains := hinside (hencloses e hvisible)
  exact ⟨e, htarget, hcontains, hget hcontains s (Shelves.isIdle_stocked _)⟩

end Agent

namespace Shelves

/-- A shelf the instances of which lie apart, and one with an instance between them. -/
def spread (number : ObjectId) : Shelf where
  scope := if number = 1 then .subtree ⟨[1]⟩ else .between ⟨[1, 5]⟩ true (some ⟨[2]⟩) false
  instances :=
    if number = 1 then .ofList [(⟨[1, 1]⟩, .integer 1), (⟨[1, 8]⟩, .integer 8)]
    else .ofList [(⟨[1, 6]⟩, .integer 6)]

/-- The state after the first shelf was narrowed to make room for the second one. -/
def parted : AgentState Unit :=
  stocked [placed spread none 1, .narrow none 1 (.startingAt ⟨[1, 5]⟩), placed spread none 2]

end Shelves

/-- A shelf that was narrowed answers beyond the scope that it is registered for. The value of the
instance is not given, and the one that is registered there is passed over. -/
theorem Agent.parted_strays :
  let a := Shelves.agent Shelves.spread fun _ => true
  let context := RequestContext.ofVersion .v2c
  Shelves.parted.IsReachable
    ∧ ((a.ask .getNext context 100 ⟨[1, 1]⟩).run Shelves.parted).1.vars.map (fun v =>
        (v.binding, v.target.map fun e => (e.object, e.scope.scope.contains v.binding.oid)))
      = #[(⟨⟨[1, 8]⟩, .integer 8⟩, some (1, false))]
    ∧ ((a.ask .get context 100 ⟨[1, 8]⟩).run Shelves.parted).1.answer?
      = some ⟨⟨[1, 8]⟩, .noSuchInstance⟩
    ∧ ((a.ask .get context 100 ⟨[1, 6]⟩).run Shelves.parted).1.answer?
      = some ⟨⟨[1, 6]⟩, .integer 6⟩
  := by
  refine ⟨Shelves.isReachable_stocked _, ?_, ?_, ?_⟩
  · decide +kernel
  · decide +kernel
  · decide +kernel

end MibAgent
