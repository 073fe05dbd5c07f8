import MibAgent.Proofs.DrivenRows

/-!
# Columns that have ended

Where a repeater was answered with an exception there is nothing more to find in its column. The
exception is handed on to the variables that are there, row by row, and a variable that is made
later takes it over from the one before it. These are two ways to walk down a column, and both come
to the variables that are listed as repetitions, whatever the number of rows is and however many
variables of the last row are there.
-/

namespace MibAgent

namespace Request

variable {r s t : Request} {value e : Value} {step position i : Nat} {vs : Array Variable}

/-! ### Going through a column -/

/-- What is gone through at steps of a certain size is the first position, and what is gone through
from the next one on. -/
theorem everyNth_range {size first : Nat} (hstep : 0 < step) :
  everyNth step ((List.range size).drop first)
    = if first < size then first :: everyNth step ((List.range size).drop (first + step)) else []
  := by
  split
  · rename_i hlt
    have hrest : first + 1 + (step - 1) = first + step := by omega
    rw [List.drop_eq_getElem_cons (by rwa [List.length_range]), everyNth, List.getElem_range,
      List.drop_drop, hrest]
  · rename_i hge
    rw [List.drop_eq_nil_of_le, everyNth]
    rw [List.length_range]
    apply Nat.le_of_not_lt hge

theorem size_answerEvery (value : Value) (step : Nat) (vs : Array Variable) (position : Nat) :
  (answerEvery value step vs position).2.size = vs.size
  := by
  have hplaces := congrArg Array.size (map_place_answerEvery value step vs position)
  rwa [Array.size_map, Array.size_map] at hplaces

/-- As many variables are answered as are gone through. -/
theorem answerEvery_fst (hstep : 0 < step) (value : Value) (vs : Array Variable) (position : Nat) :
  (answerEvery value step vs position).1
    = (everyNth step ((List.range vs.size).drop position)).length
  := by
  fun_induction answerEvery value step vs position with
  | case1 vs position hmore count others heq ih =>
      rw [heq, Array.size_modify] at ih
      rw [everyNth_range hstep, if_pos hmore.2, List.length_cons, ← ih]
  | case2 vs position hmore =>
      rw [everyNth_range hstep, if_neg (fun hlt => hmore ⟨hstep, hlt⟩)]
      rfl

/-- The variables that are gone through are answered, and the others stay as they are. -/
theorem getElem?_answerEvery (hstep : 0 < step) (value : Value) (vs : Array Variable)
    (position j : Nat) :
  (answerEvery value step vs position).2[j]?
    = if j ∈ everyNth step ((List.range vs.size).drop position) then
        vs[j]?.map (·.answerValue value)
      else vs[j]?
  := by
  fun_induction answerEvery value step vs position with
  | case1 vs position hmore count others heq ih =>
      rw [heq, Array.size_modify, Array.getElem?_modify] at ih
      rw [everyNth_range hstep, if_pos hmore.2]
      simp only [ih, List.mem_cons]
      by_cases hj : j = position
      · -- the first one is not gone through again
        have hnew : j ∉ everyNth step ((List.range vs.size).drop (position + step)) := by
          rw [mem_everyNth_range hstep]
          rintro ⟨-, k, hk⟩
          omega
        rw [if_neg hnew, if_pos hj.symm, if_pos (.inl hj)]
      · simp only [hj, false_or, if_neg (Ne.symm hj)]
  | case2 vs position hmore =>
      rw [everyNth_range hstep, if_neg (fun hlt => hmore ⟨hstep, hlt⟩), if_neg List.not_mem_nil]

/-! ### Handing on -/

/-- No variable repeats itself. -/
theorem not_mem_repetitionsOf (r : Request) (i : Nat) :
  i ∉ r.repetitionsOf i
  := by
  rw [mem_repetitionsOf]
  rintro ⟨hrepeaters, -, -, rows, hrows⟩
  rw [Nat.succ_mul] at hrows
  omega

/-- The variable at an index is a repeater that was answered with an exception. -/
structure HandsOn (r : Request) (i : Nat) (e : Value) : Prop where
  exception : e.isException
  repeaters : 0 < r.repeaters
  repeater : r.nonRepeaters ≤ i
  value : ∃ v, r.vars[i]? = some v ∧ v.binding.value = e

theorem propagate_of_single (h : ¬ ∃ e, r.HandsOn i e) :
  r.propagate i = (0, r)
  := by
  rw [propagate]
  split
  · rfl
  · rename_i v hv
    split
    · rename_i hexception
      rw [if_pos]
      by_contra hrepeater
      apply h
      exact ⟨v.binding.value, hexception, by omega, by omega, v, hv, rfl⟩
    · rfl

namespace HandsOn

variable (h : r.HandsOn i e)
include h

theorem repetitionsOf_eq :
  r.repetitionsOf i = everyNth r.repeaters ((List.range r.size).drop (i + r.repeaters))
  := by
  have hrepeaters := h.repeaters
  have hrepeater := h.repeater
  apply repetitionsOf_of_repeater
  omega

theorem propagate_eq :
  r.propagate i
    = ((r.repetitionsOf i).length,
        { r with vars := (answerEvery e r.repeaters r.vars (i + r.repeaters)).2 })
  := by
  obtain ⟨v, hv, rfl⟩ := h.value
  have hrepeaters := h.repeaters
  have hrepeater := h.repeater
  rw [h.repetitionsOf_eq, size, ← answerEvery_fst h.repeaters v.binding.value, propagate, hv]
  dsimp only
  rw [if_pos (show v.binding.isException from h.exception), if_neg (by omega)]

/-- The exception gets to the variables that are listed as repetitions, and the others stay as they
are. -/
theorem getElem?_propagate (j : Nat) :
  (r.propagate i).2.vars[j]?
    = if j ∈ r.repetitionsOf i then r.vars[j]?.map (·.answerValue e) else r.vars[j]?
  := by
  rw [h.propagate_eq, h.repetitionsOf_eq]
  apply getElem?_answerEvery h.repeaters

theorem size_propagate :
  (r.propagate i).2.size = r.size
  := by
  rw [h.propagate_eq]
  apply size_answerEvery

theorem repetitionsOf_propagate :
  (r.propagate i).2.repetitionsOf i = r.repetitionsOf i
  := by
  rw [repetitionsOf, repetitionsOf, h.size_propagate, h.propagate_eq]

theorem propagate :
  (r.propagate i).2.HandsOn i e
  := by
  obtain ⟨v, hv, hvalue⟩ := h.value
  have hsame := h.getElem?_propagate i
  rw [if_neg (r.not_mem_repetitionsOf i), hv] at hsame
  refine ⟨h.exception, ?_, ?_, v, hsame, hvalue⟩
  · rw [h.propagate_eq]
    apply h.repeaters
  · rw [h.propagate_eq]
    apply h.repeater

/-- Handing on the exception once more changes nothing. -/
theorem propagate_propagate :
  (r.propagate i).2.propagate i = ((r.repetitionsOf i).length, (r.propagate i).2)
  := by
  have hagain := h.propagate.getElem?_propagate
  rw [h.repetitionsOf_propagate] at hagain
  have hvars : ((r.propagate i).2.propagate i).2.vars = (r.propagate i).2.vars := by
    apply Array.ext_getElem?
    intro j
    rw [hagain, h.getElem?_propagate]
    split
    · rw [Option.map_map]
      rfl
    · rfl
  rw [h.propagate.propagate_eq] at hvars ⊢
  rw [h.repetitionsOf_propagate]
  dsimp only at hvars
  rw [hvars]

end HandsOn

/-! ### Variables made later -/

/-- A repetition of a variable with an exception is complete, with the same exception. -/
theorem materialize_of_exception {p : Nat} {v : Variable} (hv : r.vars[p]? = some v)
    (hexception : v.binding.isException) (hrepeaters : 0 < r.repeaters)
    (hsize : r.size ≤ p + r.repeaters) :
  ∃ w, r.materialize (p + r.repeaters) = { r with vars := r.vars.push w }
    ∧ w.predecessor = some p ∧ w.isComplete ∧ w.binding = v.binding
  := by
  have hplace : p + r.repeaters - r.repeaters = p := Nat.add_sub_cancel _ _
  have hmade := materialize_of_size_le hsize hrepeaters (by omega) (by rwa [hplace])
  rw [hplace] at hmade
  exact ⟨_, hmade, rfl, hexception, if_pos hexception⟩

/-- Cursors move on, none of them beyond the end. -/
abbrev Moves : Request → Request → Prop :=
  Relation.ReflTransGen fun r s => ∃ position, r.Admits position ∧ (r.next position).2 = s

/-- In a column from an index on there is nothing but an exception, and all that repeats the first
variable is complete. -/
structure IsEnded (r : Request) (i : Nat) (e : Value) : Prop where
  exception : e.isException
  repeaters : 0 < r.repeaters
  repeater : r.nonRepeaters ≤ i
  /-- The first variable is not one that is still to be made. -/
  present : i < r.size ∨ r.exhausted = true
  value : ∀ rows v, r.vars[i + rows * r.repeaters]? = some v →
    v.binding.value = e ∧ (0 < rows → v.isComplete)

theorem HandsOn.isEnded (h : r.HandsOn i e) :
  (r.propagate i).2.IsEnded i e
  where
  exception := h.exception
  repeaters := h.propagate.repeaters
  repeater := h.propagate.repeater
  present := by
    obtain ⟨v, hv, -⟩ := h.propagate.value
    left
    apply (Array.getElem?_eq_some_iff.mp hv).1
  value rows w hw := by
    have hsame : (r.propagate i).2.repeaters = r.repeaters := by rw [h.propagate_eq]
    rw [hsame] at hw
    cases rows with
    | zero =>
        obtain ⟨v, hv, hvalue⟩ := h.propagate.value
        rw [Nat.zero_mul, Nat.add_zero, hv] at hw
        cases hw
        exact ⟨hvalue, nofun⟩
    | succ rows =>
        have hlt : i + (rows + 1) * r.repeaters < r.size := by
          rw [← h.size_propagate]
          apply (Array.getElem?_eq_some_iff.mp hw).1
        have hlater : i + (rows + 1) * r.repeaters ∈ r.repetitionsOf i :=
          mem_repetitionsOf.mpr ⟨h.repeaters, h.repeater, hlt, rows, rfl⟩
        rw [h.getElem?_propagate, if_pos hlater] at hw
        obtain ⟨v, -, rfl⟩ := Option.map_eq_some_iff.mp hw
        exact ⟨rfl, fun _ => rfl⟩

namespace IsEnded

/-- A column that has ended stays so when a cursor moves on. -/
theorem stepped (h : r.IsEnded i e) (hadmits : r.Admits position) {found : Option Variable}
    (hsteps : r.Steps position found s) :
  s.IsEnded i e
  := by
  cases hsteps with
  | present _ | ended _ _ => exact h
  | closed _ _ _ _ => exact ⟨h.exception, h.repeaters, h.repeater, .inr rfl, h.value⟩
  | dropped _ _ _ _ _ =>
      refine ⟨h.exception, h.repeaters, h.repeater, .inr rfl, ?_⟩
      intro rows v hv
      apply h.value rows v (getElem?_of_take hv)
  | made hsize hopen hrepeaters hbound hfits hfound =>
      have hposition : position = r.vars.size := hadmits.eq_size hopen hsize
      have hpresent := h.present.resolve_right (by rw [hopen]; exact Bool.false_ne_true)
      rw [materialize]
      split
      · exact h
      · rename_i hnew
        dsimp only
        split
        · exact h
        · rename_i p hp
          refine ⟨h.exception, h.repeaters, h.repeater, ?_, ?_⟩
          · left
            rw [size_push]
            apply Nat.lt_succ_of_lt hpresent
          · intro rows v hv
            rw [Array.getElem?_push] at hv
            split at hv
            · rename_i hlast
              cases hv
              cases rows with
              | zero =>
                  change i < r.vars.size at hpresent
                  omega
              | succ rows =>
                  have hbefore : position - r.repeaters = i + rows * r.repeaters := by
                    rw [Nat.succ_mul] at hlast
                    dsimp only at hlast
                    omega
                  rw [hbefore] at hp
                  obtain ⟨hvalue, -⟩ := h.value rows p hp
                  have hexception : p.binding.isException := by
                    rw [Binding.isException, hvalue]
                    apply h.exception
                  rw [Variable.repetition, if_pos hexception]
                  exact ⟨hvalue, fun _ => hexception⟩
            · apply h.value rows v hv

/-- A column that has ended stays so, however cursors move on. -/
theorem moved (h : r.IsEnded i e) (hmoves : r.Moves s) :
  s.IsEnded i e
  := by
  induction hmoves with
  | refl => exact h
  | tail _ hmove ih =>
      obtain ⟨position, hadmits, rfl⟩ := hmove
      apply ih.stepped hadmits (steps_next _ _)

theorem of_mem_repetitionsOf (h : r.IsEnded i e) {j : Nat} (hj : j ∈ r.repetitionsOf i)
    {v : Variable} (hv : r.vars[j]? = some v) :
  v.isComplete ∧ v.binding.value = e
  := by
  obtain ⟨-, -, -, rows, rfl⟩ := mem_repetitionsOf.mp hj
  obtain ⟨hvalue, hcomplete⟩ := h.value _ v hv
  exact ⟨hcomplete rows.succ_pos, hvalue⟩

end IsEnded

/-- Handing on an exception changes nothing unless the variable is a repeater that was answered with
one. Then it gets to exactly those variables that are listed as repetitions: each of them has the
exception as its value and is complete, and is otherwise as it was. Their number is the answer, and
doing it again changes nothing. A repetition made later of the variable, or of one that repeats it,
is complete with the same exception from the start, and so the column stays, however cursors move
on. -/
theorem propagate_column (r : Request) (i : Nat) :
  ((¬ ∃ e, r.HandsOn i e) → r.propagate i = (0, r))
    ∧ ∀ e, r.HandsOn i e →
      let later := r.repetitionsOf i
      let s := (r.propagate i).2
      (r.propagate i).1 = later.length ∧ s = { r with vars := s.vars }
        ∧ (∀ j : Nat, s.vars[j]? = r.vars[j]?.map fun v =>
            if j ∈ later then { v with binding := ⟨v.binding.oid, e⟩, isComplete := true } else v)
        ∧ s.propagate i = (later.length, s)
        ∧ (∀ (t : Request) (p : Nat) v, p = i ∨ p ∈ later → s.vars[p]? = some v →
            t.vars[p]? = some v → t.repeaters = r.repeaters → t.size ≤ p + r.repeaters →
              ∃ w, t.materialize (p + r.repeaters) = { t with vars := t.vars.push w }
                ∧ w.predecessor = some p ∧ w.isComplete ∧ w.binding.value = e)
        ∧ ∀ t, s.Moves t → ∀ j ∈ t.repetitionsOf i, ∀ v, t.vars[j]? = some v →
            v.isComplete ∧ v.binding.value = e
  := by
  refine ⟨propagate_of_single, ?_⟩
  intro e h later s
  have hvalue : ∀ p v, p = i ∨ p ∈ later → s.vars[p]? = some v → v.binding.value = e := by
    rintro p v (rfl | hp) hv
    · obtain ⟨w, hw, hvalue⟩ := h.propagate.value
      rw [hw] at hv
      cases hv
      apply hvalue
    · rw [h.getElem?_propagate, if_pos hp] at hv
      obtain ⟨w, -, rfl⟩ := Option.map_eq_some_iff.mp hv
      rfl
  refine ⟨congrArg Prod.fst h.propagate_eq, ?_, ?_, h.propagate_propagate, ?_, ?_⟩
  · rw [show s = _ from congrArg Prod.snd h.propagate_eq]
  · intro j
    rw [h.getElem?_propagate]
    split
    · rfl
    · rw [Option.map_id']
  · intro t p v hp hv ht hrepeaters hsize
    rw [← hrepeaters] at hsize ⊢
    have hexception : v.binding.isException := by
      rw [Binding.isException, hvalue p v hp hv]
      apply h.exception
    obtain ⟨w, hmade, hpredecessor, hcomplete, hbinding⟩ :=
      materialize_of_exception ht hexception (hrepeaters ▸ h.repeaters) hsize
    refine ⟨w, hmade, hpredecessor, hcomplete, ?_⟩
    rw [hbinding]
    apply hvalue p v hp hv
  · intro t hmoves j hj v hv
    apply (h.isEnded.moved hmoves).of_mem_repetitionsOf hj hv

/-- A bulk read with one variable that is read once and two columns. Of the third row the variable
of the first column is there, and that column has ended in its first row. -/
theorem partial_column :
  let v (i : Nat) (value : Value) : Variable :=
    { index := i, binding := ⟨⟨[1, .ofNat i]⟩, value⟩, scope := .after ⟨[1]⟩ }
  let pdu : Pdu := { Pdu.asking .getBulk 1 [⟨[1]⟩, ⟨[2]⟩, ⟨[3]⟩] with
    nonRepeaters := 1, maxRepetitions := 4 }
  let r : Request := { create (.ofVersion .v2c) 1 pdu 500 with
    vars := #[v 0 (.integer 5), v 1 .endOfMibView, v 2 (.integer 5), v 3 (.integer 5),
      v 4 (.integer 5), v 5 (.integer 5)] }
  r.HandsOn 1 .endOfMibView ∧ r.repetitionsOf 1 = [3, 5] ∧ (r.propagate 1).1 = 2
    ∧ (r.propagate 1).2.vars[3]? = some { v 3 .endOfMibView with isComplete := true }
    ∧ (r.propagate 1).2.vars[4]? = some (v 4 (.integer 5))
    ∧ ∃ w, (r.propagate 1).2.materialize 7
          = { (r.propagate 1).2 with vars := (r.propagate 1).2.vars.push w }
        ∧ w.predecessor = some 5 ∧ w.isComplete ∧ w.binding.value = .endOfMibView
  := by
  intro v pdu r
  have hon : r.HandsOn 1 .endOfMibView :=
    ⟨by decide, by decide, by decide, v 1 .endOfMibView, rfl, rfl⟩
  have hlater : r.repetitionsOf 1 = [3, 5] := by decide +kernel
  obtain ⟨hcount, hframe, hvars, -, hmade, -⟩ := (r.propagate_column 1).2 _ hon
  rw [hlater] at hcount hvars hmade
  refine ⟨hon, hlater, hcount, hvars 3, hvars 4, ?_⟩
  apply hmade _ 5 _ (.inr (by decide)) (hvars 5) (hvars 5)
  · rw [hframe]
  · decide +kernel

end Request

end MibAgent
