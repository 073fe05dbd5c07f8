import MibAgent.Proofs.Shelves

/-!
# Bulk reads

A bulk read gives what single requests give one after the other: each of its repeaters is a column,
in which every binding is what comes after the one before it. The rows end when there are as many as
were asked for, when another one would say nothing but the end of the view, or when another one of
the size of the last one would not fit into the response.
-/

namespace MibAgent

open Agent (NextOutcome recordNext)

variable {σ : Type}

/-- An answer is what the object has found. -/
theorem Circumstances.eq_found_of_step {c : Circumstances} {range : Scope} {r : NextResult}
    {b : Binding} (h : c.step range r = .answer b) :
  r = .found b
  := by
  cases r with
  | endOfView => cases h
  | found b' =>
      rw [step] at h
      split at h
      · split at h
        · cases h
          rfl
        · cases h
      · cases h

/-- Nothing that is found is an exception when no object answers with one. -/
theorem Seeks.isException_found {c : Circumstances} {visits : Nat} {range : Scope}
    {o : NextOutcome} (h : Seeks c visits range o)
    (hvalues : ∀ object range b, c.answers object range (.found b) → b.isException = false)
    {e : Entry} {query : Query} {b : Binding} (ho : o = .found e query b) :
  b.isException = false
  := by
  induction h with
  | unfinished | nothing _ | unavailable _ | ended _ _ _ _ => cases ho
  | denied _ _ _ _ ih => apply ih ho
  | passed _ _ _ _ _ ih => apply ih ho
  | @found _ range e r b query first answers step _ =>
      cases ho
      apply hvalues e.object range b
      rw [← c.eq_found_of_step step]
      exact answers

/-- The variable has what comes after an OID. -/
def Variable.Continues (c : Circumstances) (limit : Nat) (x : Oid) (w : Variable) : Prop :=
  ∃ o, Seeks c limit (.after x) o ∧ o.isAvailable ∧ o.answer? x = some w.binding

/-- A variable that repeats the end of the view has what comes after its OID. -/
theorem Variable.Continues.repetition {c : Circumstances} {limit : Nat}
    (hvalues : ∀ object range b, c.answers object range (.found b) → b.isException = false)
    {x : Oid} {p : Variable} (h : p.Continues c limit x) (hexception : p.binding.isException)
    (index predecessor : Nat) :
  (Variable.repetition index predecessor p).Continues c limit p.binding.oid
  := by
  obtain ⟨o, hseeks, havailable, hanswer⟩ := h
  cases o with
  | unavailable e => cases havailable
  | unfinished =>
      rw [← Option.some_inj.mp hanswer] at hexception
      cases hexception
  | found e query b =>
      rw [← Option.some_inj.mp hanswer, hseeks.isException_found hvalues rfl] at hexception
      cases hexception
  | endOfView =>
      have hrepeated : (Variable.repetition index predecessor p).binding = p.binding :=
        if_pos hexception
      have hbinding := Option.some_inj.mp hanswer
      have hoid : p.binding.oid = x := by rw [← hbinding]
      rw [Continues, hrepeated, hoid]
      exact ⟨.endOfView, hseeks, havailable, hanswer⟩

namespace Request

/-- The parameters of a bulk read. -/
theorem create_bulk {context : RequestContext} (hversion : context.version.isLegacy = false)
    (transaction : Nat) {pdu : Pdu} (hbulk : pdu.operation = .getBulk) (maxSize : Nat) :
  let start := create context transaction pdu maxSize
  start.nonRepeaters = min pdu.nonRepeaters.toInt.toNat pdu.bindings.length
    ∧ start.repeaters = pdu.bindings.length - start.nonRepeaters
    ∧ start.maxRepetitions = pdu.maxRepetitions.toInt.toNat
  := by
  have hoperation : effectiveOperation context.version pdu.operation = .getBulk := by
    rw [effectiveOperation, hbulk, hversion, if_neg]
    rintro ⟨-, hfalse⟩
    cases hfalse
  intro start
  simp only [start, create, hoperation, if_true, and_self]

/-- All variables are there in the beginning when at least one row is asked for. -/
theorem vars_create_bulk {context : RequestContext} {transaction : Nat} {pdu : Pdu}
    (hrows : 0 < pdu.maxRepetitions.toInt.toNat) (hbulk : pdu.operation = .getBulk)
    (hversion : context.version.isLegacy = false) (maxSize : Nat) :
  let start := create context transaction pdu maxSize
  start.vars = (pdu.bindings.mapIdx (askedFor start.operation)).toArray
  := by
  intro start
  have hmax : start.maxRepetitions ≠ 0 := by
    rw [(create_bulk hversion transaction hbulk maxSize).2.2]
    exact hrows.ne'
  simp only [start, create] at hmax ⊢
  rw [if_neg (fun hnone => hmax hnone.2), List.take_length]
  rfl

theorem getElem?_bindings (r : Request) (i : Nat) :
  r.bindings[i]? = r.vars[i]?.map (·.binding)
  := by
  rw [bindings, List.getElem?_map, Array.getElem?_toList]

/-- The bindings of a bulk read are what is known to come after the OIDs that were asked for, and
then what comes after the OIDs of one row after the other. There are no more rows when there are as
many as were asked for, when another one would say nothing but the end of the view, or when another
one of the size of the last one would not fit. -/
structure Iterates (r : Request) (pdu : Pdu) (after : Oid → Option Binding) (rows : Nat) :
    Prop where
  nonRepeaters : r.nonRepeaters = min pdu.nonRepeaters.toInt.toNat pdu.bindings.length
  repeaters : r.repeaters = pdu.bindings.length - r.nonRepeaters
  maxRepetitions : r.maxRepetitions = pdu.maxRepetitions.toInt.toNat
  size : r.size = r.nonRepeaters + rows * r.repeaters
  bounded : 0 < r.repeaters → 1 ≤ rows ∧ rows ≤ r.maxRepetitions
  first : ∀ (i : Nat) (b : Binding), pdu.bindings[i]? = some b → r.bindings[i]? = after b.oid
  later : ∀ i, pdu.bindings.length ≤ i → i < r.size →
    ∃ b : Binding, r.bindings[i - r.repeaters]? = some b ∧ r.bindings[i]? = after b.oid
  goes : ∀ row, 1 ≤ row → row < rows → r.Goes row
  ends : 0 < r.repeaters → rows < r.maxRepetitions →
    (∀ v ∈ r.row (rows - 1), ∃ b, after v.binding.oid = some b ∧ b.value = .endOfMibView)
      ∨ r.maxSize < r.encodedSize
        + Size.total ((r.row (rows - 1)).toList.map (·.binding.encodedSize))

namespace IsFinished

variable {start r : Request} {Q : Oid → Variable → Prop} {pdu : Pdu}
  {after : Oid → Option Binding} (h : start.IsFinished Q r)
  (hafter : ∀ x w, Q x w → after x = some w.binding)
include h hafter

/-- Each binding is what comes after the OID that its variable asked for. -/
theorem exists_asked {i : Nat} (hi : i < r.size) :
  ∃ x, start.askedAt? r i = some x ∧ r.bindings[i]? = after x
  := by
  obtain ⟨x, w, hx, hw, hQ⟩ := h.read i hi
  use x, hx
  rw [getElem?_bindings, hw, hafter x w hQ]
  rfl

theorem first_eq_after (hvars : start.vars = (pdu.bindings.mapIdx (askedFor start.operation)).toArray)
    {i : Nat} {b : Binding} (hb : pdu.bindings[i]? = some b) :
  r.bindings[i]? = after b.oid
  := by
  have hi : i < r.size := by
    apply lt_of_lt_of_le _ h.size_le
    rw [size, hvars, List.size_toArray, List.length_mapIdx]
    apply (List.getElem?_eq_some_iff.mp hb).1
  obtain ⟨x, hx, hbinding⟩ := h.exists_asked hafter hi
  rw [askedAt?, hvars, List.getElem?_toArray, List.getElem?_mapIdx, hb, Option.map_some,
    Option.some_or, Option.map_some, oid_askedFor] at hx
  cases hx
  apply hbinding

theorem later_eq_after {i : Nat} (hlate : start.size ≤ i) (hi : i < r.size) :
  ∃ b : Binding, r.bindings[i - start.repeaters]? = some b ∧ r.bindings[i]? = after b.oid
  := by
  obtain ⟨x, hx, hbinding⟩ := h.exists_asked hafter hi
  rw [askedAt?, Array.getElem?_eq_none_iff.mpr hlate, Option.none_or] at hx
  obtain ⟨v, hv, rfl⟩ := Option.map_eq_some_iff.mp hx
  use v.binding
  rw [getElem?_bindings, hv]
  exact ⟨rfl, hbinding⟩

/-- The bindings are whole rows, and there is a reason why there are no more of them. -/
theorem exists_rows (hstart : start.size = start.nonRepeaters + start.repeaters)
    (hrows : 0 < start.maxRepetitions) :
  ∃ rows, r.size = start.nonRepeaters + rows * start.repeaters
    ∧ (0 < start.repeaters → 1 ≤ rows ∧ rows ≤ start.maxRepetitions)
    ∧ (∀ row, 1 ≤ row → row < rows → r.Goes row)
    ∧ (0 < start.repeaters → rows < start.maxRepetitions →
      (∀ v ∈ r.row (rows - 1), ∃ b, after v.binding.oid = some b ∧ b.value = .endOfMibView)
        ∨ start.maxSize < r.encodedSize
          + Size.total ((r.row (rows - 1)).toList.map (·.binding.encodedSize)))
  := by
  rcases Nat.eq_zero_or_pos start.repeaters with hnone | hsome
  · use 0
    rw [h.single (.inl hnone), hstart, hnone]
    refine ⟨rfl, ?_, ?_, ?_⟩
    · intro hpositive
      apply absurd hpositive (lt_irrefl 0)
    · intro row _ hrow
      apply absurd hrow (Nat.not_lt_zero row)
    · intro hpositive
      apply absurd hpositive (lt_irrefl 0)
  · obtain ⟨last, hlast, hsize, hgoes, hends⟩ := h.rows hsome hrows
    refine ⟨last + 1, hsize, fun _ => ⟨Nat.succ_pos last, hlast⟩, ?_, ?_⟩
    · intro row hpositive hrow
      apply hgoes row hpositive (Nat.le_of_lt_succ hrow)
    · intro _ hmore
      apply (hends hmore).imp_left
      intro hend v hv
      obtain ⟨w, hQ, hvalue⟩ := hend v hv
      exact ⟨w.binding, hafter _ w hQ, hvalue⟩

/-- What is finished of a bulk read goes on from one row to the next. -/
theorem iterates
    (hnonRepeaters : start.nonRepeaters = min pdu.nonRepeaters.toInt.toNat pdu.bindings.length)
    (hrepeaters : start.repeaters = pdu.bindings.length - start.nonRepeaters)
    (hmaxRepetitions : start.maxRepetitions = pdu.maxRepetitions.toInt.toNat)
    (hrows : 0 < start.maxRepetitions)
    (hvars : start.vars = (pdu.bindings.mapIdx (askedFor start.operation)).toArray) :
  ∃ rows, r.Iterates pdu after rows
  := by
  have hstart : start.size = pdu.bindings.length := by
    rw [size, hvars, List.size_toArray, List.length_mapIdx]
  obtain ⟨rows, hsize, hbounded, hgoes, hends⟩ := h.exists_rows hafter (by omega) hrows
  use rows
  have hcontinues := h.continues
  constructor
  · rw [hcontinues.nonRepeaters, hnonRepeaters]
  · rw [hcontinues.repeaters, hcontinues.nonRepeaters, hrepeaters]
  · rw [hcontinues.maxRepetitions, hmaxRepetitions]
  · rw [hcontinues.repeaters, hcontinues.nonRepeaters, hsize]
  · rw [hcontinues.repeaters, hcontinues.maxRepetitions]
    exact hbounded
  · intro i b hb
    apply h.first_eq_after hafter hvars hb
  · rw [← hstart, hcontinues.repeaters]
    intro i hlate hi
    apply h.later_eq_after hafter hlate hi
  · exact hgoes
  · rw [hcontinues.repeaters, hcontinues.maxRepetitions, hcontinues.maxSize]
    exact hends

end IsFinished

end Request

namespace Agent

variable {a : Agent σ} {P : σ → Prop} {next : ObjectId → ContextScope → NextResult}
  {granted : AccessCheck → Bool}

/-- A bulk read gives what single requests for what comes next would give one after the other. -/
theorem bulk_iterates (h : a.Reads P (fun object window r => r = next object window) granted)
    (hvalues : ∀ object window b, next object window = .found b → b.isException = false)
    {context : RequestContext} (hversion : context.version.isLegacy = false) {pdu : Pdu}
    (hbulk : pdu.operation = .getBulk) (hrows : 0 < pdu.maxRepetitions.toInt.toNat)
    (maxSize : Nat) {s : AgentState σ} (hs : P s.surroundings)
    (hopen : s.registry.locks.IsOpenTo (s.lastTransaction + 1)) :
  ∃ rows, ((openRequest context pdu maxSize >>= a.perform).run s).1.Iterates pdu
    (fun x => ((a.ask .getNext context maxSize x).run s).1.answer?) rows
  := by
  let c := context.circumstances s.registry.store (fun object window r => r = next object window)
    granted
  let start := Request.create context (s.lastTransaction + 1) pdu maxSize
  have hanswers : ∀ object range b, c.answers object range (.found b) → b.isException = false :=
    fun object range b hb => hvalues object _ b hb.symm
  have hnext : pdu.operation.isNext := by
    rw [hbulk]
    rfl
  have hgives : AgentM.Gives True P s.registry.store s.registry.locks (a.perform start)
      (start.IsFinished fun x w => w.Continues c a.searchLimit x) s.registry.locks := by
    apply h.gives_performNext context _ maxSize hnext fun _ => hopen
    · intro op x v o hasks hseeks havailable
      refine ⟨o, hseeks, havailable trivial, ?_⟩
      rw [← hasks.answer_recordNext o, if_pos]
      cases o with
      | unavailable e => cases havailable trivial
      | endOfView | found _ _ _ | unfinished => apply hasks.healthy
    · intro _ x p index predecessor hp hexception
      apply hp.repetition hanswers hexception
  obtain ⟨-, -, hfinished⟩ := hgives.run { s with lastTransaction := s.lastTransaction + 1 }
    ⟨hs, rfl⟩ fun _ => rfl
  obtain ⟨hnonRepeaters, hrepeaters, hmaxRepetitions⟩ :=
    Request.create_bulk hversion (s.lastTransaction + 1) hbulk maxSize
  apply hfinished.iterates _ hnonRepeaters hrepeaters hmaxRepetitions
  · rw [hmaxRepetitions]
    apply hrows
  · apply Request.vars_create_bulk hrows hbulk hversion
  · rintro x w ⟨o, hseeks, havailable, hanswer⟩
    obtain ⟨-, -, o', hseeks', havailable', hanswer'⟩ :=
      h.run_ask_getNext context maxSize x ⟨hs, rfl⟩ hopen
    have hsame : ∀ object range r r', c.answers object range r → c.answers object range r' →
        r = r' := fun _ _ _ _ hr hr' => hr.trans hr'.symm
    rw [hanswer', ← hanswer]
    apply hseeks'.answer_eq hseeks hsame havailable' havailable

/-- A bulk read of two shelves with a variable that is read once, a repeater, and three rows. -/
theorem pairs_iterate :
  let a := Shelves.agent Shelves.pairs fun _ => true
  let s := Shelves.stocked
    [Shelves.placed Shelves.pairs none 1, Shelves.placed Shelves.pairs none 2]
  let context := RequestContext.ofVersion .v2c
  let pdu : Pdu :=
    { Pdu.asking .getBulk 1 [Shelves.first 1, Shelves.first 1] with
      nonRepeaters := 1
      maxRepetitions := 3 }
  ∃ rows, ((openRequest context pdu 500 >>= a.perform).run s).1.Iterates pdu
    (fun x => ((a.ask .getNext context 500 x).run s).1.answer?) rows
  := by
  intro a s context pdu
  have hversion : context.version.isLegacy = false := rfl
  have hbulk : pdu.operation = .getBulk := rfl
  have hopen : s.registry.locks.IsOpenTo (s.lastTransaction + 1) := LockTable.isOpenTo_empty _
  have hvalues : ∀ object (window : ContextScope) b,
      NextResult.within window.scope (Shelves.pairs object).instances = .found b →
        b.isException = false :=
    fun object _ _ hb => Shelves.isException_pairs object _ _ (NextResult.get?_of_within hb)
  apply bulk_iterates (Shelves.offers_agent Shelves.pairs fun _ => true).toReads hvalues hversion
    hbulk (by decide) 500 trivial hopen

end Agent

end MibAgent
