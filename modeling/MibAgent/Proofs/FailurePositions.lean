import MibAgent.Proofs.DrivenRows
import MibAgent.Proofs.ResponseSize
import MibAgent.Proofs.WritePhases

/-!
# Where a response says that something failed

A failure is reported with the position of one of the bindings that were received. A variable of a
later row was made from the one a row before it, that one from its own predecessor, and so on: the
position is that of the binding with which the chain begins. This holds of everything that can become
of a request, whatever its variables are answered, in whichever order they fail, and whether an agent
carries the request out or it is driven by hand.
-/

namespace MibAgent

variable {σ : Type}

/-! ### What an agent makes of a request -/

namespace Story

theorem place_prepared (p : Preparation) (context : RequestContext) :
  (p.prepared context).place = p.asked.place
  := by
  obtain ⟨v, fate⟩ := p
  cases fate with
  | refused target _ => cases target <;> rfl
  | _ => rfl

theorem place_committed (p : Settlement) (context : RequestContext) :
  (p.committed context).place = p.asked.place
  := by
  rw [← place_prepared, Settlement.committed]
  split
  · rfl
  · split <;> rfl

theorem place_released (story : Story) (context : RequestContext) :
  (story.released context).place = story.asked.place
  := by
  rw [← place_committed, released, undone]
  split
  · rfl
  · split <;> rfl

end Story

namespace Agent

open AgentM (Ensures)

variable (a : Agent σ) (context : RequestContext)

theorem place_recordNext (v : Variable) (o : NextOutcome) :
  (recordNext v o).place = v.place
  := by
  cases o with
  | _ => rfl

theorem ensures_place_readExact (v : Variable) :
  Ensures (fun _ => True) (a.readExact context v) (·.place = v.place)
  := by
  have hany : ∀ {α : Type} (m : AgentM σ α), Ensures (fun _ => True) m fun _ => True :=
    fun _ => ⟨fun _ _ => ⟨trivial, trivial⟩⟩
  rw [readExact]
  apply (hany _).bind
  intro granted _
  split
  · apply (hany _).bind
    intro found _
    cases found with
    | none => exact Ensures.pure rfl
    | some entry =>
        apply (hany _).bind
        intro locked _
        split
        · apply (hany _).bind
          intro result _
          apply (hany _).bind
          intro _ _
          split
          · exact Ensures.pure rfl
          · exact Ensures.pure rfl
        · exact Ensures.pure rfl
  · exact Ensures.pure rfl

/-- A variable that is read stays where it is. -/
theorem place_readVariable (v : Variable) (s : AgentState σ) :
  ((a.readVariable context v).run s).1.place = v.place
  := by
  rw [readVariable]
  split
  · apply place_recordNext
  · apply ((ensures_place_readExact a context v).run s trivial).2

theorem leads_readFrom (steps : Nat) {position : Nat} {r : Request} (h : r.Admits position)
    (s : AgentState σ) :
  r.Leads ((a.readFrom context steps position r).run s).1
  := by
  induction steps generalizing position r s with
  | zero => exact .refl
  | succ steps ih =>
      rw [readFrom]
      cases hnext : r.next position with
      | mk found t =>
          have hsteps := Request.steps_of_next hnext
          cases found with
          | none => exact .single (.stepped h hsteps)
          | some v =>
              apply Relation.ReflTransGen.head (.stepped h hsteps)
              dsimp only
              split
              · apply ih hsteps.admits
              · rw [AgentM.run_bind]
                have htreated : t.Becomes
                    (t.modify position fun _ => ((a.readVariable context v).run s).1) := by
                  apply Request.Becomes.treated
                  apply Request.isTreated_modify
                  intro w hw
                  rw [hsteps.getElem?] at hw
                  cases hw
                  apply place_readVariable
                apply Relation.ReflTransGen.head htreated
                apply ih (hsteps.admits.becomes htreated)

/-- Whatever comes of the phases of a write, the variables stay where they are. -/
theorem isTreated_written {r : Request} {stories : List Story}
    (hasked : stories.map (·.asked) = r.vars.toList) :
  r.IsTreated (r.written stories)
  := by
  refine ⟨rfl, rfl, ?_⟩
  rw [Request.places, Request.places, ← Array.toList_inj, Array.toList_map, Array.toList_map,
    ← hasked, Request.written, List.map_map, List.map_map]
  apply List.map_congr_left
  intro story _
  apply story.place_released

/-- What an agent makes of a new request can become of it. -/
theorem leads_perform (transaction : Nat) (pdu : Pdu) (maxSize : Nat) (s : AgentState σ) :
  let start := Request.create context transaction pdu maxSize
  start.Leads ((a.perform start).run s).1
  := by
  intro start
  by_cases hset : pdu.operation = .set
  · rw [perform_create_set a context transaction maxSize hset]
    have hfresh := Request.isFresh_create_set context transaction maxSize hset
    obtain ⟨stories, t, hasked, -, hruns⟩ := write_runs a start hfresh s
    rw [hruns.plain]
    exact .single (.treated (isTreated_written hasked))
  · have hread : pdu.operation.isWrite = false := by
      cases hoperation : pdu.operation with
      | set => apply absurd hoperation hset
      | _ => rfl
    rw [perform_create_read a context transaction maxSize hread]
    apply leads_readFrom
    apply Or.inl (Nat.zero_le _)

end Agent

/-! ### Where variables stem from -/

namespace Request

variable {start r : Request}

/-- The variable at a position asks for the binding that was received there. -/
def AsksAt (r : Request) (position : Nat) : Prop :=
  ∃ b, r.requested[position]? = some b ∧ r.vars[position]? = some (askedFor r.operation position b)

/-- The variable at an index stems from the binding at a position: from it one comes, going from
repetition to predecessor, to the variable that was made for the binding, which repeats none. -/
structure Stems (start r : Request) (index position : Nat) : Prop where
  asked : start.AsksAt position
  first : ∃ v, r.vars[position]? = some v ∧ v.predecessor = none
  chain : Relation.ReflTransGen r.Repeats position index

/-- Every variable of a new request was made for the binding at its position. -/
theorem asksAt_create (context : RequestContext) (transaction : Nat) (pdu : Pdu) (maxSize : Nat)
    {i : Nat} (hi : i < (create context transaction pdu maxSize).size) :
  (create context transaction pdu maxSize).AsksAt i
  := by
  obtain ⟨v, hv⟩ : ∃ v, (create context transaction pdu maxSize).vars[i]? = some v :=
    ⟨_, Array.getElem?_eq_getElem hi⟩
  have hmade := hv
  rw [create, List.getElem?_toArray, List.getElem?_mapIdx] at hmade
  obtain ⟨b, htaken, heq⟩ := Option.map_eq_some_iff.mp hmade
  obtain ⟨hlt, hb⟩ := List.getElem?_eq_some_iff.mp htaken
  rw [List.getElem_take] at hb
  use b, List.getElem?_eq_some_iff.mpr ⟨_, hb⟩
  rw [hv, ← heq]
  rfl

namespace IsInRows

variable (h : start.IsInRows r) (hnew : start.IsNew)
include h hnew

/-- In the beginning there was a variable for the binding of every column. -/
theorem requestedPosition_lt {i : Nat} (hi : i < r.size) :
  r.requestedPosition i < start.size
  := by
  have hle := h.size_le
  rw [requestedPosition, h.repeaters, h.nonRepeaters]
  split
  · rename_i hsingle
    rcases hsingle with hnone | hlt
    · rw [hnone, Nat.mul_zero, Nat.add_zero, max_eq_left hnew.nonRepeaters] at hle
      apply hi.trans_le hle
    · apply hlt.trans_le hnew.nonRepeaters
  · rename_i hrepeats
    rw [not_or, Nat.not_lt] at hrepeats
    have hrepeaters : 0 < start.repeaters := Nat.pos_of_ne_zero hrepeats.1
    rcases Nat.eq_zero_or_pos start.maxRepetitions with hnone | hsome
    · rw [hnone, Nat.zero_mul, Nat.add_zero, hnew.noRow hrepeaters hnone, max_self] at hle
      omega
    · rw [hnew.row hrepeaters hsome]
      apply Nat.add_lt_add_left (Nat.mod_lt _ hrepeaters)

/-- From a variable one comes, going from repetition to predecessor, to the one at the position of
its column. -/
theorem reflTransGen_repeats {i : Nat} (hi : i < r.size) :
  Relation.ReflTransGen r.Repeats (r.requestedPosition i) i
  := by
  rw [requestedPosition]
  split
  · exact .refl
  · rename_i hrepeats
    rw [not_or, Nat.not_lt] at hrepeats
    have hrepeaters : 0 < r.repeaters := Nat.pos_of_ne_zero hrepeats.1
    have hcolumn := Nat.mod_add_div (i - r.nonRepeaters) r.repeaters
    cases hrows : (i - r.nonRepeaters) / r.repeaters with
    | zero =>
        rw [hrows] at hcolumn
        rw [show r.nonRepeaters + (i - r.nonRepeaters) % r.repeaters = i by omega]
    | succ rows =>
        apply Relation.TransGen.to_reflTransGen
        rw [← h.mem_repetitionsOf_iff hnew, mem_repetitionsOf]
        refine ⟨hrepeaters, Nat.le_add_right _ _, hi, rows, ?_⟩
        rw [hrows] at hcolumn
        rw [Nat.mul_comm]
        omega

/-- Every variable stems from the binding at the position that is reported for it. -/
theorem stems (hasked : ∀ i < start.size, start.AsksAt i) {i : Nat} (hi : i < r.size) :
  start.Stems r i (r.requestedPosition i)
  where
  asked := hasked _ (h.requestedPosition_lt hnew hi)
  first := by
    have hlt := h.requestedPosition_lt hnew hi
    have hv : r.vars[r.requestedPosition i]? = some _ :=
      Array.getElem?_eq_getElem (hlt.trans_le h.size_ge)
    have hplace := congrArg Prod.snd (h.place _ _ hv)
    rw [placeAt, if_pos hlt] at hplace
    exact ⟨_, hv, hplace⟩
  chain := h.reflTransGen_repeats hnew hi

end IsInRows

/-! ### Responses -/

/-- The variable at an index is the first of which something holds. -/
structure IsFirst (r : Request) (p : Variable → Bool) (index : Nat) (v : Variable) : Prop where
  present : r.vars[index]? = some v
  holds : p v
  earlier : ∀ j < index, ∀ w, r.vars[j]? = some w → p w = false

/-- A response reports a failure of the variable at an index: it has a status, it names, counted from
one, the binding from which the variable stems, and it carries the bindings as they were received. -/
structure Blames (start r : Request) (index : Nat) (status : Status) (response : Response) : Prop where
  status : response.status = status
  index_pos : 1 ≤ response.index
  index_le : response.index ≤ start.requested.length
  stems : start.Stems r index (response.index - 1)
  bindings : response.bindings = start.requested

/-- How a request is answered that started as `start`. -/
structure IsAnswered (start r : Request) : Prop where
  /-- In the first version of the protocol the first exception is reported as a name that does not
  exist. -/
  exception : r.context.version.isLegacy → ∀ i v, r.IsFirst (·.binding.isException) i v →
    start.Blames r i .noSuchName r.response
  /-- Otherwise the first failure is reported with its status, in the vocabulary of the version. -/
  failure : (r.context.version.isLegacy → ∀ v ∈ r.vars, v.binding.isException = false) →
    ∀ i v, r.IsFirst (·.hasError) i v →
      start.Blames r i (if r.context.version.isLegacy then v.status.toLegacy else v.status) r.response
  /-- Without any of them no binding is named. -/
  success : (r.context.version.isLegacy → ∀ v ∈ r.vars, v.binding.isException = false) →
    (∀ v ∈ r.vars, v.hasError = false) →
      r.response.index = 0 ∧ (r.response.status = .noError ∨ r.response.SaysTooBig)

theorem IsFirst.findIdx?_eq {p : Variable → Bool} {i : Nat} {v : Variable} (h : r.IsFirst p i v) :
  r.vars.findIdx? p = some i
  := by
  obtain ⟨hi, hv⟩ := Array.getElem?_eq_some_iff.mp h.present
  apply Array.findIdx?_eq_some_iff_getElem.mpr
  refine ⟨hi, ?_, ?_⟩
  · rw [hv, h.holds]
  · intro j hj
    rw [h.earlier j hj _ (Array.getElem?_eq_getElem _)]
    exact Bool.false_ne_true

theorem IsFirst.find?_eq {p : Variable → Bool} {i : Nat} {v : Variable} (h : r.IsFirst p i v) :
  r.vars.find? p = some v
  := by
  obtain ⟨hi, hv⟩ := Array.getElem?_eq_some_iff.mp h.present
  apply Array.find?_eq_some_iff_getElem.mpr
  refine ⟨h.holds, i, hi, hv, ?_⟩
  intro j hj
  rw [h.earlier j hj _ (Array.getElem?_eq_getElem _)]
  rfl

/-- What is reported for a variable blames it. -/
theorem IsInRows.blames (h : start.IsInRows r) (hnew : start.IsNew)
    (hasked : ∀ i < start.size, start.AsksAt i) {i : Nat} (hi : i < r.size)
    {status : Status} (hfailure : r.failure? = some (status, r.requestedPosition i + 1)) :
  start.Blames r i status r.response
  := by
  have hlt := (h.requestedPosition_lt hnew hi).trans_le hnew.requested
  rw [response_of_failure hfailure]
  exact ⟨rfl, Nat.le_add_left _ _, hlt, h.stems hnew hasked hi, h.requested⟩

theorem IsInRows.isAnswered (h : start.IsInRows r) (hnew : start.IsNew)
    (hasked : ∀ i < start.size, start.AsksAt i) :
  start.IsAnswered r
  where
  exception hlegacy i v hfirst := by
    have hposition : r.unspoken? = some i := by
      rw [unspoken?, if_pos hlegacy]
      apply hfirst.findIdx?_eq
    apply h.blames hnew hasked (Array.getElem?_eq_some_iff.mp hfirst.present).1
    rw [failure?, hposition]
  failure hspoken i v hfirst := by
    have hindex : v.index = i := congrArg Prod.fst (h.place i v hfirst.present)
    have herror : r.firstError? = some v := hfirst.find?_eq
    apply h.blames hnew hasked (Array.getElem?_eq_some_iff.mp hfirst.present).1
    rw [failure?, unspoken?_eq_none_iff.mpr hspoken]
    dsimp only
    rw [errorIndex, herror, Option.map_some, Option.map_some, hindex]
    rfl
  success hspoken hhealthy := by
    rw [response_of_success (failure?_eq_none_iff.mpr ⟨hhealthy, hspoken⟩)]
    split
    · exact ⟨rfl, .inl rfl⟩
    · exact ⟨rfl, .inr ⟨rfl, rfl⟩⟩

open Scenario (Move HandDriven)

/-- Whatever becomes of a request, a failure is reported with the position of the binding from which
the first failed variable stems. What an agent makes of the request is among what may become of it,
and so is what a driver makes of it. -/
theorem response_names_binding (context : RequestContext) (transaction : Nat) (pdu : Pdu)
    (maxSize : Nat) :
  let start := create context transaction pdu maxSize
  (∀ r, start.Leads r → start.IsAnswered r)
    ∧ (∀ (σ : Type) (a : Agent σ) (s : AgentState σ), start.Leads ((a.perform start).run s).1)
    ∧ ∀ (data : OrderedMap Oid Value) (moves : List Move),
        start.Leads ((HandDriven.ofRequest start).after data moves).request
  := by
  intro start
  have hnew := isNew_create context transaction pdu maxSize
  have hrows := isInRows_create context transaction pdu maxSize
  refine ⟨?_, ?_, ?_⟩
  · intro r hleads
    apply (hrows.leads hnew hleads).isAnswered hnew
    intro i hi
    apply asksAt_create context transaction pdu maxSize hi
  · intro σ a s
    apply a.leads_perform context transaction pdu maxSize s
  · intro data moves
    apply ((HandDriven.isReached_ofRequest start).after data moves).leads

/-- In a bulk read of one binding and two columns, the variables of the second row fail, the last one
first. The status is that of the earlier one, and the binding that is named is the second. -/
theorem row_names_binding :
  let pdu : Pdu :=
    { Pdu.asking .getBulk 1 [⟨[1, 1]⟩, ⟨[1, 2]⟩, ⟨[1, 3]⟩] with
      nonRepeaters := 1, maxRepetitions := 2 }
  let data := OrderedMap.ofList [(⟨[1, 2, 1]⟩, .integer 1), (⟨[1, 3, 1]⟩, .integer 2)]
  let moves : List Move := [.walk .scan, .treat 4 (.fail 5), .treat 3 (.fail 13)]
  let start := create (.ofVersion .v2c) 1 pdu 484
  let r := ((HandDriven.ofRequest start).after data moves).request
  start.Blames r 3 .resourceUnavailable r.response
    ∧ r.response = ⟨1, .resourceUnavailable, 2, pdu.bindings⟩
  := by
  intro pdu data moves start r
  obtain ⟨hanswered, -, hdriven⟩ := response_names_binding (.ofVersion .v2c) 1 pdu 484
  have hversion : r.context.version.isLegacy = false := by decide +kernel
  have hfailed : ∃ v, r.vars[3]? = some v ∧ v.hasError ∧ v.status = .resourceUnavailable := by
    decide +kernel
  have hhealthy : ∀ j < 3, ∃ v, r.vars[j]? = some v ∧ v.hasError = false := by decide +kernel
  have hresponse : r.response = ⟨1, .resourceUnavailable, 2, pdu.bindings⟩ := by decide +kernel
  have hall := hanswered r (hdriven data moves)
  clear_value r
  obtain ⟨v, hv, herror, hstatus⟩ := hfailed
  have hfirst : r.IsFirst (·.hasError) 3 v := by
    refine ⟨hv, herror, ?_⟩
    intro j hj w hw
    obtain ⟨w', hw', hfine⟩ := hhealthy j hj
    rw [hw, Option.some_inj] at hw'
    rwa [hw']
  have hblames := hall.failure (by rw [hversion]; exact nofun) 3 v hfirst
  rw [hversion, hstatus] at hblames
  exact ⟨hblames, hresponse⟩

end Request

end MibAgent
