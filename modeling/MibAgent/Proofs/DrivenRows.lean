import MibAgent.Proofs.Rows
import MibAgent.Scenario.HandDriven

/-!
# Requests in the hands of a driver

Treating variables, handing on exceptions and attaching things leave every variable in its place,
and moving a cursor on is the only way to get more variables or fewer. Whatever is done to a request,
it has therefore grown in rows, each cursor stands where it can go on, and what it looks at is there.
-/

namespace MibAgent

open Scenario (Treatment)

theorem Scenario.Treatment.place_apply (data : OrderedMap Oid Value) (v : Variable)
    (how : Treatment) :
  (how.apply data v).place = v.place
  := by
  cases how with
  | scan =>
      rw [apply]
      split
      · rfl
      · split
        · rfl
        · rfl
  | _ => rfl

namespace Request

variable {start r s : Request} {position : Nat}

theorem map_place_modify {vs : Array Variable} {i : Nat} {f : Variable → Variable}
    (hf : ∀ v, vs[i]? = some v → (f v).place = v.place) :
  (vs.modify i f).map (·.place) = vs.map (·.place)
  := by
  apply Array.ext_getElem?
  intro j
  rw [Array.getElem?_map, Array.getElem?_map, Array.getElem?_modify]
  split
  · rename_i heq
    rw [← heq]
    cases hv : vs[i]? with
    | none => rfl
    | some v =>
        rw [Option.map_some, Option.map_some, Option.map_some, hf v hv]
  · rfl

theorem IsTreated.refl (r : Request) :
  r.IsTreated r
  := ⟨rfl, rfl, rfl⟩

theorem isTreated_modify {index : Nat} {f : Variable → Variable}
    (hf : ∀ v, r.vars[index]? = some v → (f v).place = v.place) :
  r.IsTreated (r.modify index f)
  := ⟨rfl, rfl, map_place_modify hf⟩

theorem isTreated_attach (r : Request) (name : String) (a : Attachment) :
  r.IsTreated (r.attach name a)
  := ⟨rfl, rfl, rfl⟩

theorem map_place_answerEvery (value : Value) (step : Nat) (vs : Array Variable) (position : Nat) :
  (answerEvery value step vs position).2.map (·.place) = vs.map (·.place)
  := by
  fun_induction answerEvery value step vs position with
  | case1 vs position hmore count others heq ih =>
      rw [heq] at ih
      rw [ih, map_place_modify]
      intro _ _
      rfl
  | case2 => rfl

theorem isTreated_propagate (r : Request) (index : Nat) :
  r.IsTreated (r.propagate index).2
  := by
  rw [propagate]
  split
  · apply IsTreated.refl
  · split
    · split
      · apply IsTreated.refl
      · exact ⟨rfl, rfl, map_place_answerEvery _ _ _ _⟩
    · apply IsTreated.refl

theorem pairwise_repetitionsOf (i : Nat) :
  (r.repetitionsOf i).Pairwise (· < ·)
  := by
  have hsub : (r.repetitionsOf i).Sublist (List.range r.size) :=
    (everyNth_sublist _ _).trans (List.drop_sublist _ _)
  apply List.pairwise_lt_range.sublist hsub

theorem place_create (context : RequestContext) (transaction : Nat) (pdu : Pdu) (maxSize : Nat)
    {i : Nat} {v : Variable} (hv : (create context transaction pdu maxSize).vars[i]? = some v) :
  v.place = (i, none)
  := by
  rw [create, List.getElem?_toArray, List.getElem?_mapIdx] at hv
  obtain ⟨b, -, rfl⟩ := Option.map_eq_some_iff.mp hv
  rfl

theorem isInRows_create (context : RequestContext) (transaction : Nat) (pdu : Pdu)
    (maxSize : Nat) :
  (create context transaction pdu maxSize).IsInRows (create context transaction pdu maxSize)
  := by
  apply (isNew_create context transaction pdu maxSize).isInRows
  intro i v hv
  apply place_create context transaction pdu maxSize hv

/-- How the variables of a request are laid out that started with those of `start`. -/
structure IsLaidOut (start r : Request) : Prop where
  index : ∀ (i : Nat) v, r.vars[i]? = some v → v.index = i
  /-- Outside a bulk read the variables are those asked for, and none repeats another. -/
  single : start.operation ≠ .getBulk →
    r.size = start.requested.length ∧ ∀ v ∈ r.vars, v.predecessor = none
  /-- In a bulk read a variable behind the first row repeats the one a row before. -/
  column : start.operation = .getBulk → ∀ (i : Nat) v, r.vars[i]? = some v →
    v.predecessor
      = if i < start.nonRepeaters + start.repeaters then none else some (i - start.repeaters)
  noRow : start.operation = .getBulk → start.maxRepetitions = 0 → r.size = start.nonRepeaters
  rows : start.operation = .getBulk → 0 < start.maxRepetitions →
    start.nonRepeaters + start.repeaters ≤ r.size
      ∧ r.size ≤ start.nonRepeaters + start.maxRepetitions * start.repeaters
  /-- The repetitions of a variable are listed in their order, and are those whose chain of
  predecessors leads to it. -/
  repetitions : ∀ i, (r.repetitionsOf i).Pairwise (· < ·)
    ∧ ∀ j, j ∈ r.repetitionsOf i ↔ Relation.TransGen r.Repeats i j

/-- All that a cursor at a position looks at is there: the last row, when it is finished, and the
variable that is repeated, when a new one is made. -/
structure ReadsInside (r : Request) (position : Nat) : Prop where
  row : r.size ≤ position → r.exhausted = false → 0 < r.repeaters → r.nonRepeaters < position →
    (position - r.nonRepeaters) % r.repeaters = 0 → r.repeaters ≤ position ∧ position ≤ r.size
  predecessor : ∀ s, r.hasNext position = (true, s) → s.size ≤ position → 0 < s.repeaters →
    s.repeaters ≤ position → position - s.repeaters < s.size

theorem IsInRows.isLaidOut (h : start.IsInRows r) (hnew : start.IsNew)
    (hsize : start.size = if start.operation = .getBulk ∧ start.maxRepetitions = 0
      then start.nonRepeaters else start.requested.length)
    (hrepeaters : if start.operation = .getBulk
      then start.nonRepeaters + start.repeaters = start.requested.length
      else start.nonRepeaters = 0 ∧ start.repeaters = 0) :
  start.IsLaidOut r
  := by
  have hge := h.size_ge
  have hle := h.size_le
  have hpredecessor (i : Nat) (v : Variable) (hv : r.vars[i]? = some v) :
      i < r.size ∧ v.predecessor = if i < start.size then none else some (i - start.repeaters) :=
    ⟨(Array.getElem?_eq_some_iff.mp hv).1, congrArg Prod.snd (h.place i v hv)⟩
  refine ⟨?_, ?_, ?_, ?_, ?_, ?_⟩
  · intro i v hv
    exact congrArg Prod.fst (h.place i v hv)
  · intro hsingle
    rw [if_neg hsingle] at hrepeaters
    rw [if_neg (mt And.left hsingle)] at hsize
    rw [hrepeaters.1, hrepeaters.2, Nat.mul_zero, Nat.add_zero, Nat.max_zero] at hle
    constructor
    · apply (hle.antisymm hge).trans hsize
    · intro v hv
      obtain ⟨i, hi⟩ := Array.mem_iff_getElem?.mp hv
      obtain ⟨hlt, hv⟩ := hpredecessor i v hi
      rw [hv, if_pos (hlt.trans_le hle)]
  · intro hbulk i v hv
    rw [if_pos hbulk] at hrepeaters
    obtain ⟨hlt, hv⟩ := hpredecessor i v hv
    by_cases hnone : start.maxRepetitions = 0
    · rw [if_pos ⟨hbulk, hnone⟩] at hsize
      rw [hnone, Nat.zero_mul, Nat.add_zero, hsize, Nat.max_self] at hle
      rw [hv, if_pos (by omega), if_pos (by omega)]
    · rw [if_neg (mt And.right hnone), ← hrepeaters] at hsize
      rw [hv, hsize]
  · intro hbulk hnone
    rw [if_pos ⟨hbulk, hnone⟩] at hsize
    rw [hnone, Nat.zero_mul, Nat.add_zero, hsize, Nat.max_self] at hle
    apply hle.antisymm (hsize ▸ hge)
  · intro hbulk hsome
    rw [if_pos hbulk] at hrepeaters
    rw [if_neg (mt And.right hsome.ne'), ← hrepeaters] at hsize
    rw [hsize] at hge hle
    refine ⟨hge, hle.trans (max_le ?_ le_rfl)⟩
    apply Nat.add_le_add_left (Nat.le_mul_of_pos_left _ hsome)
  · intro i
    exact ⟨pairwise_repetitionsOf i, fun j => h.mem_repetitionsOf_iff hnew⟩

/-- Where a variable can be made, the request is as it was. -/
theorem eq_of_hasNext (hsize : r.size ≤ position) (h : r.hasNext position = (true, s)) :
  s = r ∧ r.exhausted = false
  := by
  by_cases hidle : r.exhausted = true ∨ r.repeaters = 0
  · rw [hasNext_of_idle hsize hidle] at h
    cases h
  · rw [not_or, Bool.not_eq_true] at hidle
    rcases hasNext_of_size_le hsize hidle.1 (Nat.pos_of_ne_zero hidle.2) with
      ⟨_, _, _, hnext⟩ | ⟨_, hnext⟩
    · rw [hnext] at h
      cases h
    · rw [hnext] at h
      exact ⟨(congrArg Prod.snd h).symm, hidle.1⟩

theorem Admits.readsInside (hadmits : r.Admits position) :
  r.ReadsInside position
  where
  row hsize hopen hrepeaters hlt hmod := by
    obtain ⟨k, hk⟩ := (wholeRows_iff hrepeaters).mp ⟨hlt, hmod⟩
    have hrow : r.repeaters ≤ (k + 1) * r.repeaters := Nat.le_mul_of_pos_left _ k.succ_pos
    refine ⟨?_, (hadmits.eq_size hopen hsize).le⟩
    omega
  predecessor s hnext hsize hrepeaters hle := by
    rcases Nat.lt_or_ge position r.size with hlt | hge
    · rw [hasNext, if_pos hlt] at hnext
      cases hnext
      omega
    · obtain ⟨rfl, hopen⟩ := eq_of_hasNext hge hnext
      have hposition := hadmits.eq_size hopen hge
      omega

end Request

namespace Scenario.HandDriven

variable {data : OrderedMap Oid Value} {start : Request} {h : HandDriven}

/-! ### Many moves -/

/-- What some moves make of a request and its cursors. -/
def after (data : OrderedMap Oid Value) (h : HandDriven) (moves : List Move) : HandDriven :=
  moves.foldl (fun h move => (h.step data move).2) h

/-- Where a cursor is. -/
def position (h : HandDriven) (cursor : Nat) : Nat := (h.cursors.get? cursor).getD 0

theorem position_insert (r : Request) (cursor other place : Nat) :
  position ⟨r, h.cursors.insert cursor place⟩ other
    = if other = cursor then place else h.position other
  := by
  rw [position, OrderedMap.get?_insert]
  split
  · rename_i heq
    rw [if_pos (compare_eq_iff_eq.mp heq)]
    rfl
  · rename_i hne
    rw [if_neg (mt compare_eq_iff_eq.mpr hne)]
    rfl

/-- Moving a cursor on is one step of the request, after which the cursor stands behind what it has
come to. -/
theorem step_next (data : OrderedMap Oid Value) (h : HandDriven) (cursor : Nat) (how : Treatment) :
  (∃ s, h.request.Steps (h.position cursor) none s
      ∧ h.step data (.next cursor how) = (.reached none (h.position cursor),
        ⟨s, h.cursors.insert cursor (h.position cursor)⟩))
    ∨ ∃ v s, h.request.Steps (h.position cursor) (some v) s
      ∧ h.step data (.next cursor how) = (.reached (some v) (h.position cursor + 1),
        ⟨s.modify (h.position cursor) (how.apply data ·),
          h.cursors.insert cursor (h.position cursor + 1)⟩)
  := by
  cases hnext : h.request.next (h.position cursor) with
  | mk found s =>
      have hsteps := Request.steps_of_next hnext
      rw [position] at hnext
      cases found with
      | none =>
          left
          use s, hsteps
          simp only [step, hnext]
          rfl
      | some v =>
          right
          use v, s, hsteps
          simp only [step, hnext]
          rfl

/-- What has become of a request, and where its cursors are: none is beyond the end as long as there
may be more rows. -/
structure IsReached (start : Request) (h : HandDriven) : Prop where
  leads : start.Leads h.request
  admits : ∀ cursor, h.request.Admits (h.position cursor)

theorem isReached_ofRequest (start : Request) :
  IsReached start (ofRequest start)
  where
  leads := .refl
  admits _ := .inl (Nat.zero_le _)

/-- The request gets on, and its cursors stay where they are. -/
theorem IsReached.onward (hreached : IsReached start h) {s : Request}
    (hleads : h.request.Leads s) :
  IsReached start { h with request := s }
  where
  leads := hreached.leads.trans hleads
  admits cursor := (hreached.admits cursor).leads hleads

/-- The request gets on, and one of its cursors as well. -/
theorem IsReached.moveCursor (hreached : IsReached start h) {s : Request}
    (hleads : h.request.Leads s) (cursor : Nat) {place : Nat} (hadmits : s.Admits place) :
  IsReached start ⟨s, h.cursors.insert cursor place⟩
  where
  leads := hreached.leads.trans hleads
  admits other := by
    rw [position_insert]
    split
    · exact hadmits
    · apply (hreached.admits other).leads hleads

theorem leads_walkFrom (data : OrderedMap Oid Value) (how : Treatment) (steps : Nat) {place : Nat}
    {r : Request} (hadmits : r.Admits place) :
  r.Leads (walkFrom data how steps place r).2.2
  := by
  induction steps generalizing place r with
  | zero => exact .refl
  | succ steps ih =>
      rw [walkFrom]
      cases hnext : r.next place with
      | mk found s =>
          have hsteps := Request.steps_of_next hnext
          cases found with
          | none => exact .single (.stepped hadmits hsteps)
          | some v =>
              have htreated : s.Becomes (s.modify place fun _ => how.apply data v) := by
                apply Request.Becomes.treated
                apply Request.isTreated_modify
                intro w hw
                rw [hsteps.getElem?] at hw
                cases hw
                apply how.place_apply data
              exact .head (.stepped hadmits hsteps)
                (.head htreated (ih (hsteps.admits.becomes htreated)))

/-- Every move leaves a request that has been reached, and its cursors where they can go on. -/
theorem IsReached.step (hreached : IsReached start h) (move : Move) :
  IsReached start (h.step data move).2
  := by
  cases move with
  | next cursor how =>
      have hadmits := hreached.admits cursor
      rcases step_next data h cursor how with ⟨s, hsteps, heq⟩ | ⟨v, s, hsteps, heq⟩
      · rw [heq]
        have hstepped : h.request.Becomes s := .stepped hadmits hsteps
        apply hreached.moveCursor (.single hstepped) cursor (hadmits.becomes hstepped)
      · rw [heq]
        have hstepped : h.request.Becomes s := .stepped hadmits hsteps
        have htreated : s.Becomes (s.modify (h.position cursor) (how.apply data ·)) :=
          .treated (Request.isTreated_modify fun v _ => how.place_apply data v)
        apply hreached.moveCursor (.tail (.single hstepped) htreated) cursor
        apply hsteps.admits.becomes htreated
  | walk how =>
      let walked := walkFrom data how (h.request.cursorLimit + 1) 0 h.request
      have hleads : h.request.Leads walked.2.2 := leads_walkFrom data how _ (.inl (Nat.zero_le _))
      exact hreached.onward hleads
  | treat index how =>
      apply hreached.onward (.single (.treated _))
      apply Request.isTreated_modify
      intro v _
      apply how.place_apply data
  | propagate index =>
      apply hreached.onward (.single (.treated (Request.isTreated_propagate _ index)))
  | attach name a =>
      apply hreached.onward (.single (.treated (Request.isTreated_attach _ name a)))
  | look _ | repetitions _ | state | response | attached _ => exact hreached

theorem IsReached.after (hreached : IsReached start h) (data : OrderedMap Oid Value)
    (moves : List Move) :
  IsReached start (h.after data moves)
  := by
  induction moves generalizing h with
  | nil => exact hreached
  | cons move moves ih => apply ih (hreached.step move)

/-- What a cursor at a position finds: the variable there, or nothing. It finds nothing only behind
a whole number of rows, and from then on, as long as nothing else is done, it finds nothing again,
and another cursor finds just the variables that are there. -/
structure Serves (r : Request) (place : Nat) : Prop where
  found : ∀ v s, r.next place = (some v, s) → v.index = place ∧ s.vars[place]? = some v
  whole : ∀ s, r.next place = (none, s) → 0 < r.repeaters →
    ∃ rows, s.size = r.nonRepeaters + rows * r.repeaters
  again : ∀ s, r.next place = (none, s) →
    s.next place = (none, s) ∧ ∀ i ≤ s.size, s.next i = (s.vars[i]?, s)
  walk : ∀ s, r.next place = (none, s) → ∀ data cursors,
    step data ⟨s, cursors⟩ (.walk .leave) = (.walked s.bindings s.size, ⟨s, cursors⟩)

theorem walkFrom_leave (data : OrderedMap Oid Value) {r : Request}
    (hend : r.next r.size = (none, r)) {steps place : Nat} (hplace : place ≤ r.size)
    (hsteps : r.size < place + steps) :
  walkFrom data .leave steps place r = (r.bindings.drop place, r.size, r)
  := by
  induction steps generalizing place with
  | zero => omega
  | succ steps ih =>
      rw [walkFrom]
      rcases hplace.lt_or_eq with hlt | rfl
      · have hv : r.vars[place]? = some r.vars[place] := Array.getElem?_eq_getElem hlt
        rw [Request.next_of_lt hlt, hv]
        dsimp only
        rw [Treatment.apply, Request.modify_present hv, ih hlt (by omega)]
        have hlength : place < r.bindings.length := hlt.trans_eq r.length_bindings.symm
        rw [List.drop_eq_getElem_cons hlength]
        simp only [Request.bindings, List.getElem_map, Array.getElem_toList]
        rfl
      · rw [hend, List.drop_eq_nil_of_le r.length_bindings.le]

theorem serves (hreached : IsReached start h) (hnew : start.IsNew) (hrows : start.IsInRows start)
    (cursor : Nat) :
  Serves h.request (h.position cursor)
  := by
  have hadmits := hreached.admits cursor
  have hr := hrows.leads hnew hreached.leads
  have hagain {s : Request} (hnext : h.request.next (h.position cursor) = (none, s)) :
      s.next (h.position cursor) = (none, s) ∧ ∀ i ≤ s.size, s.next i = (s.vars[i]?, s) := by
    obtain ⟨hsame, hend⟩ := hr.next_of_none hnew hadmits hnext
    refine ⟨hsame, ?_⟩
    intro i hi
    rcases hi.lt_or_eq with hlt | rfl
    · apply Request.next_of_lt hlt
    · rw [hend, Array.getElem?_eq_none (show s.vars.size ≤ s.size from le_rfl)]
  constructor
  · intro v s hnext
    have hv := (Request.steps_of_next hnext).getElem?
    have hs := hr.stepped hnew hadmits (Request.steps_of_next hnext)
    exact ⟨congrArg Prod.fst (hs.place _ v hv), hv⟩
  · intro s hnext hrepeaters
    apply hr.whole_of_none hnew hadmits hrepeaters (Request.steps_of_next hnext)
  · intro s hnext
    apply hagain hnext
  · intro s hnext data cursors
    have hs := hr.stepped hnew hadmits (Request.steps_of_next hnext)
    have hend := (hr.next_of_none hnew hadmits hnext).2
    have hlimit : s.size ≤ s.cursorLimit := by
      rw [Request.cursorLimit, hs.requested, hs.nonRepeaters, hs.maxRepetitions, hs.repeaters]
      apply hs.size_le.trans (max_le_max_right _ hnew.requested)
    have hwalk : walkFrom data .leave (s.cursorLimit + 1) 0 s = (s.bindings, s.size, s) :=
      walkFrom_leave data hend (Nat.zero_le _) (by omega)
    rw [step]
    dsimp only
    rw [hwalk]

/-- However a request is driven, its variables are where they should be, and so is what its cursors
look at and find. -/
theorem variables_in_place (context : RequestContext) (transaction : Nat) (pdu : Pdu)
    (maxSize : Nat) (data : OrderedMap Oid Value) (moves : List Move) :
  let start := Request.create context transaction pdu maxSize
  let driven := (ofRequest start).after data moves
  start.IsLaidOut driven.request
    ∧ ∀ cursor, driven.request.ReadsInside (driven.position cursor)
      ∧ Serves driven.request (driven.position cursor)
  := by
  intro start driven
  have hnew := Request.isNew_create context transaction pdu maxSize
  have hrows := Request.isInRows_create context transaction pdu maxSize
  have hreached : IsReached start driven := (isReached_ofRequest start).after data moves
  constructor
  · apply (hrows.leads hnew hreached.leads).isLaidOut hnew
    · apply Request.size_create
    · apply Request.repeaters_create
  · intro cursor
    exact ⟨(hreached.admits cursor).readsInside, serves hreached hnew hrows cursor⟩

end Scenario.HandDriven

end MibAgent
