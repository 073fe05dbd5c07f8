import Mathlib.Logic.Relation
import MibAgent.Proofs.Reading

/-!
# Where variables stand

However a request is driven, by as many cursors as one likes and whatever its variables are
answered in between, each variable stands where its index says, and one that repeats another stands
one row behind it. A cursor makes a new variable only right behind the last one, and takes away no
less than a whole row. What a cursor may find therefore depends only on how the request was made, on
which rows there are, and on whether there will be more.
-/

namespace MibAgent

/-- Where a variable stands, and behind which other one. -/
def Variable.place (v : Variable) : Nat × Option Nat := (v.index, v.predecessor)

namespace Request

variable {start r s : Request} {position : Nat}

/-! ### What can happen to a request -/

/-- Where each variable stands. -/
def places (r : Request) : Array (Nat × Option Nat) := r.vars.map (·.place)

theorem size_places : r.places.size = r.size := Array.size_map

/-- What stays as it was when the request was made. -/
def frame (r : Request) : Request :=
  { r with vars := #[], exhausted := false, attachments := .empty }

/-- The requests differ at most in what is known of the variables, and in what is attached. -/
structure IsTreated (r s : Request) : Prop where
  frame : s.frame = r.frame
  exhausted : s.exhausted = r.exhausted
  places : s.places = r.places

/-- What a cursor at a position comes to, and the request afterwards. -/
inductive Steps (r : Request) (position : Nat) : Option Variable → Request → Prop where
  /-- There is a variable. -/
  | present {v : Variable} (hv : r.vars[position]? = some v) : Steps r position (some v) r
  /-- There are no more rows, or no rows at all. -/
  | ended (hsize : r.size ≤ position)
      (hover : r.exhausted = true ∨ r.repeaters = 0
        ∨ r.nonRepeaters + r.maxRepetitions * r.repeaters ≤ position) :
      Steps r position none r
  /-- After the last row there is no other one. -/
  | closed (hopen : r.exhausted = false) (hsize : r.size ≤ position) (k : Nat)
      (hk : position = r.nonRepeaters + (k + 1) * r.repeaters) :
      Steps r position none { r with exhausted := true }
  /-- The last row is dropped, and it is not the first. -/
  | dropped (hopen : r.exhausted = false) (hsize : r.size ≤ position)
      (hrepeaters : 0 < r.repeaters) (k : Nat)
      (hk : position = r.nonRepeaters + (k + 1) * r.repeaters + r.repeaters) :
      Steps r position none { r with
        vars := r.vars.take (r.nonRepeaters + (k + 1) * r.repeaters)
        exhausted := true }
  /-- A variable is made. If it begins a row, another row like the last one would fit. -/
  | made {found : Option Variable} (hsize : r.size ≤ position) (hopen : r.exhausted = false)
      (hrepeaters : 0 < r.repeaters)
      (hbound : position < r.nonRepeaters + r.maxRepetitions * r.repeaters)
      (hfits : ∀ k, position = r.nonRepeaters + (k + 1) * r.repeaters →
        r.encodedSize + Size.total ((r.row k).toList.map (·.binding.encodedSize)) ≤ r.maxSize)
      (hfound : (r.materialize position).vars[position]? = found) :
      Steps r position found (r.materialize position)

theorem hasNext_of_idle (hsize : r.size ≤ position)
    (hidle : r.exhausted = true ∨ r.repeaters = 0) :
  r.hasNext position = (false, r)
  := by
  have hover : (r.exhausted || r.repeaters == 0) = true := by
    rwa [Bool.or_eq_true, beq_iff_eq]
  rw [hasNext, if_neg hsize.not_gt, if_pos hover]

/-- Without rows to come, a cursor behind the last variable comes to nothing. -/
theorem next_of_idle (hsize : r.size ≤ position) (hidle : r.exhausted = true ∨ r.repeaters = 0) :
  r.next position = (none, r)
  := by rw [next, hasNext_of_idle hsize hidle]

/-- A row after which there may be another one leaves room for one of its size. -/
theorem fits_of_closeRow {k : Nat} (hk : position = r.nonRepeaters + (k + 1) * r.repeaters)
    (h : (r.closeRow position).1 = true) :
  r.encodedSize + Size.total ((r.row k).toList.map (·.binding.encodedSize)) ≤ r.maxSize
  := by
  rw [closeRow_row hk] at h
  split at h
  · cases h
  · split at h
    · cases h
    · rename_i hsize
      apply Nat.le_of_not_lt hsize

/-- A row after which there is no other one is dropped, or it stays as the last. -/
theorem steps_closeRow (hopen : r.exhausted = false) (hsize : r.size ≤ position)
    (hrepeaters : 0 < r.repeaters) {k : Nat}
    (hk : position = r.nonRepeaters + (k + 1) * r.repeaters)
    (h : (r.closeRow position).1 = false) :
  r.Steps position none (r.closeRow position).2
  := by
  rw [closeRow_row hk] at h ⊢
  split at h
  · rename_i hall
    rw [if_pos hall]
    cases k with
    | zero =>
        rw [Nat.zero_mul, Nat.add_zero, if_neg (Nat.lt_irrefl _)]
        apply Steps.closed hopen hsize 0 hk
    | succ k =>
        rw [if_pos (Nat.lt_add_of_pos_right (Nat.mul_pos k.succ_pos hrepeaters))]
        apply Steps.dropped hopen hsize hrepeaters k
        rw [hk, Nat.succ_mul, Nat.add_assoc]
  · rename_i hall
    rw [if_neg hall]
    split at h
    · rename_i hfull
      rw [if_pos hfull]
      apply Steps.closed hopen hsize k hk
    · cases h

/-- Whatever a cursor does, it does in one of these ways. -/
theorem steps_next (r : Request) (position : Nat) :
  r.Steps position (r.next position).1 (r.next position).2
  := by
  rcases Nat.lt_or_ge position r.size with hlt | hsize
  · rw [next_of_lt hlt]
    dsimp only
    rw [Array.getElem?_eq_getElem hlt]
    apply Steps.present (Array.getElem?_eq_getElem hlt)
  · by_cases hidle : r.exhausted = true ∨ r.repeaters = 0
    · rw [next_of_idle hsize hidle]
      apply Steps.ended hsize
      tauto
    · rw [not_or, Bool.not_eq_true] at hidle
      have hrepeaters : 0 < r.repeaters := Nat.pos_of_ne_zero hidle.2
      rcases hasNext_of_size_le hsize hidle.1 hrepeaters with
        ⟨k, hk, hclosed, hnext⟩ | ⟨hclose, hnext⟩
      · rw [next, hnext]
        apply steps_closeRow hidle.1 hsize hrepeaters hk hclosed
      · rw [next, hnext]
        by_cases hbound : position < r.nonRepeaters + r.maxRepetitions * r.repeaters
        · rw [decide_eq_true hbound]
          apply Steps.made hsize hidle.1 hrepeaters hbound _ rfl
          intro k hk
          apply fits_of_closeRow hk (hclose k hk)
        · rw [decide_eq_false hbound]
          apply Steps.ended hsize
          right; right
          apply Nat.le_of_not_lt hbound

theorem steps_of_next {found : Option Variable} (h : r.next position = (found, s)) :
  r.Steps position found s
  := by
  have hsteps := r.steps_next position
  rwa [h] at hsteps

/-- What a cursor comes to is the variable at its position. -/
theorem Steps.getElem? {v : Variable} (h : r.Steps position (some v) s) :
  s.vars[position]? = some v
  := by
  cases h with
  | present hv => exact hv
  | made _ _ _ _ _ hfound => exact hfound

/-- A cursor at the position is not beyond the end, unless there will be no more rows. -/
def Admits (r : Request) (position : Nat) : Prop := position ≤ r.size ∨ r.exhausted = true

/-- A cursor that comes to nothing while there may be more rows stands right behind the last
variable. -/
theorem Admits.eq_size (h : r.Admits position) (hopen : r.exhausted = false)
    (hsize : r.size ≤ position) :
  position = r.size
  := by
  rcases h with hle | hexhausted
  · apply hle.antisymm hsize
  · apply absurd (hopen.symm.trans hexhausted) Bool.false_ne_true

/-- One thing that can happen to a request: something becomes known of its variables, or a cursor
moves on. -/
inductive Becomes (r : Request) : Request → Prop where
  | treated {s : Request} (h : r.IsTreated s) : Becomes r s
  | stepped {s : Request} {position : Nat} {found : Option Variable} (hadmits : r.Admits position)
      (h : r.Steps position found s) : Becomes r s

/-- What can happen to a request in the course of time. -/
abbrev Leads : Request → Request → Prop := Relation.ReflTransGen Becomes

/-! ### Where the variables stand -/

/-- Where the variable at an index stands. -/
def placeAt (start : Request) (i : Nat) : Nat × Option Nat :=
  (i, if i < start.size then none else some (i - start.repeaters))

/-- When more variables may come than there are in the beginning, the first row is there. -/
theorem IsNew.row_of_lt (h : start.IsNew)
    (hlt : start.size < start.nonRepeaters + start.maxRepetitions * start.repeaters) :
  0 < start.repeaters ∧ start.size = start.nonRepeaters + start.repeaters
  := by
  have hnonRepeaters := h.nonRepeaters
  have hmore : 0 < start.maxRepetitions * start.repeaters := by omega
  have hrows : 0 < start.maxRepetitions := Nat.pos_of_mul_pos_right hmore
  have hrepeaters : 0 < start.repeaters := Nat.pos_of_mul_pos_left hmore
  exact ⟨hrepeaters, h.row hrepeaters hrows⟩

/-- There are no more variables in the beginning than there may ever be. -/
theorem IsNew.size_le_rows (h : start.IsNew) (hrepeaters : 0 < start.repeaters) :
  start.size ≤ start.nonRepeaters + start.maxRepetitions * start.repeaters
  := by
  rcases Nat.eq_zero_or_pos start.maxRepetitions with hnone | hsome
  · rw [h.noRow hrepeaters hnone]
    apply Nat.le_add_right
  · rw [h.row hrepeaters hsome]
    apply Nat.add_le_add_left (Nat.le_mul_of_pos_left _ hsome)

/-- The variables stand in rows behind those with which the request started. -/
structure IsInRows (start r : Request) : Prop where
  frame : r.frame = start.frame
  place : ∀ (i : Nat) v, r.vars[i]? = some v → v.place = start.placeAt i
  size_ge : start.size ≤ r.size
  size_le : r.size ≤ max start.size (start.nonRepeaters + start.maxRepetitions * start.repeaters)
  /-- No row is left unfinished. -/
  whole : r.exhausted = true → ∃ rows, r.size = start.nonRepeaters + rows * start.repeaters

namespace IsInRows

variable (h : start.IsInRows r)
include h

theorem nonRepeaters : r.nonRepeaters = start.nonRepeaters :=
  (congrArg Request.nonRepeaters h.frame :)

theorem maxRepetitions : r.maxRepetitions = start.maxRepetitions :=
  (congrArg Request.maxRepetitions h.frame :)

theorem repeaters : r.repeaters = start.repeaters := (congrArg Request.repeaters h.frame :)

theorem maxSize : r.maxSize = start.maxSize := (congrArg Request.maxSize h.frame :)

theorem requested : r.requested = start.requested := (congrArg Request.requested h.frame :)

/-- A variable is made behind the last one, from the one that stands a row before. -/
theorem materialize_eq (hnew : start.IsNew) (hadmits : r.Admits position)
    (hsize : r.size ≤ position) (hopen : r.exhausted = false)
    (hbound : position < r.nonRepeaters + r.maxRepetitions * r.repeaters) :
  ∃ p, r.vars[position - start.repeaters]? = some p
    ∧ r.materialize position = { r with
        vars := r.vars.push (.repetition position (position - start.repeaters) p) }
  := by
  have hposition := hadmits.eq_size hopen hsize
  have hge := h.size_ge
  rw [h.nonRepeaters, h.maxRepetitions, h.repeaters] at hbound
  obtain ⟨hrepeaters, hrow⟩ := hnew.row_of_lt ((hge.trans hsize).trans_lt hbound)
  have hbefore : position - start.repeaters < r.size := by omega
  obtain ⟨p, hp⟩ : ∃ p, r.vars[position - start.repeaters]? = some p :=
    ⟨_, Array.getElem?_eq_getElem hbefore⟩
  have hsame := h.repeaters
  use p, hp
  rw [materialize_of_size_le hsize (hsame ▸ hrepeaters) (by omega) (hsame ▸ hp), hsame]

end IsInRows

theorem IsNew.isInRows (h : start.IsNew)
    (hplace : ∀ (i : Nat) v, start.vars[i]? = some v → v.place = (i, none)) :
  start.IsInRows start
  where
  frame := rfl
  place i v hv := by
    have hi : i < start.size := (Array.getElem?_eq_some_iff.mp hv).1
    rw [hplace i v hv, placeAt, if_pos hi]
  size_ge := le_rfl
  size_le := le_max_left _ _
  whole hexhausted := by
    rw [h.open'] at hexhausted
    cases hexhausted

theorem IsTreated.size_eq (h : r.IsTreated s) :
  s.size = r.size
  := by rw [← size_places, h.places, size_places]

theorem IsTreated.exists_place (h : r.IsTreated s) {i : Nat} {v : Variable}
    (hv : s.vars[i]? = some v) :
  ∃ w, r.vars[i]? = some w ∧ w.place = v.place
  := by
  have hplaces : s.places[i]? = r.places[i]? := by rw [h.places]
  rw [Request.places, Request.places, Array.getElem?_map, Array.getElem?_map, hv] at hplaces
  apply Option.map_eq_some_iff.mp hplaces.symm

/-- What becomes known of variables does not move them. -/
theorem IsInRows.treated (h : start.IsInRows r) (htreated : r.IsTreated s) :
  start.IsInRows s
  where
  frame := htreated.frame.trans h.frame
  place i v hv := by
    obtain ⟨w, hw, hplace⟩ := htreated.exists_place hv
    rw [← hplace, h.place i w hw]
  size_ge := h.size_ge.trans_eq htreated.size_eq.symm
  size_le := htreated.size_eq.trans_le h.size_le
  whole := by
    rw [htreated.exhausted, htreated.size_eq]
    apply h.whole

theorem length_bindings (r : Request) :
  r.bindings.length = r.size
  := by rw [bindings, List.length_map, Array.length_toList, size]

theorem size_push (v : Variable) :
  ({ r with vars := r.vars.push v }).size = r.size + 1
  := Array.size_push _

theorem getElem?_of_take {n i : Nat} {v : Variable} (hv : (r.vars.take n)[i]? = some v) :
  r.vars[i]? = some v
  := by
  obtain ⟨hi, rfl⟩ := Array.getElem?_eq_some_iff.mp hv
  rw [Array.take_eq_extract, Array.size_extract] at hi
  rw [Array.getElem?_eq_some_iff]
  simp only [Array.take_eq_extract, Array.getElem_extract, Nat.zero_add]
  use by omega

/-- A cursor leaves the variables in their rows. -/
theorem IsInRows.stepped (h : start.IsInRows r) (hnew : start.IsNew) (hadmits : r.Admits position)
    {found : Option Variable} (hsteps : r.Steps position found s) :
  start.IsInRows s
  := by
  have hge := h.size_ge
  have hle := h.size_le
  cases hsteps with
  | present _ => exact h
  | ended _ _ => exact h
  | closed hopen hsize k hk =>
      refine ⟨h.frame, h.place, hge, hle, fun _ => ⟨k + 1, ?_⟩⟩
      rw [← h.nonRepeaters, ← h.repeaters, ← hk]
      apply (hadmits.eq_size hopen hsize).symm
  | dropped hopen hsize hrepeaters k hk =>
      have hposition := hadmits.eq_size hopen hsize
      have hkept : r.nonRepeaters + (k + 1) * r.repeaters ≤ r.size := by omega
      have hfirst : start.size ≤ r.nonRepeaters + (k + 1) * r.repeaters := by
        rw [h.repeaters] at hrepeaters
        rw [h.nonRepeaters, h.repeaters]
        apply hnew.size_le_of_row hrepeaters rfl
      rw [← size_take hkept true] at hfirst
      refine ⟨h.frame, ?_, hfirst, ?_, fun _ => ⟨k + 1, ?_⟩⟩
      · intro i v hv
        apply h.place i v (getElem?_of_take hv)
      · rw [size_take hkept]
        apply hkept.trans hle
      · rw [size_take hkept, h.nonRepeaters, h.repeaters]
  | made hsize hopen hrepeaters hbound hfits hfound =>
      obtain ⟨p, hp, heq⟩ := h.materialize_eq hnew hadmits hsize hopen hbound
      have hposition := hadmits.eq_size hopen hsize
      rw [h.nonRepeaters, h.maxRepetitions, h.repeaters] at hbound
      rw [heq]
      refine ⟨h.frame, ?_, ?_, ?_, ?_⟩
      · intro i v hv
        rw [Array.getElem?_push] at hv
        split at hv
        · rename_i hi
          cases hv
          rw [hi, ← Request.size, ← hposition, placeAt, if_neg (by omega)]
          rfl
        · apply h.place i v hv
      · rw [size_push]
        omega
      · rw [size_push]
        omega
      · intro hexhausted
        apply absurd (hopen.symm.trans hexhausted) Bool.false_ne_true

theorem IsInRows.becomes (h : start.IsInRows r) (hnew : start.IsNew) (hbecomes : r.Becomes s) :
  start.IsInRows s
  := by
  cases hbecomes with
  | treated htreated => apply h.treated htreated
  | stepped hadmits hsteps => apply h.stepped hnew hadmits hsteps

/-- Whatever happens to a request, its variables stand in rows. -/
theorem IsInRows.leads (h : start.IsInRows r) (hnew : start.IsNew) (hleads : r.Leads s) :
  start.IsInRows s
  := by
  induction hleads with
  | refl => exact h
  | tail _ hbecomes ih => apply ih.becomes hnew hbecomes

/-! ### Where the cursors stand -/

theorem size_le_size_materialize (r : Request) (position : Nat) :
  r.size ≤ (r.materialize position).size
  := by
  rw [materialize]
  split
  · exact le_rfl
  · dsimp only
    split
    · exact le_rfl
    · rw [size_push]
      apply Nat.le_succ

/-- No other cursor is brought beyond the end as long as there may be more rows. -/
theorem Admits.becomes (h : r.Admits position) (hbecomes : r.Becomes s) :
  s.Admits position
  := by
  cases hbecomes with
  | treated htreated =>
      rw [Admits, htreated.size_eq, htreated.exhausted]
      exact h
  | stepped _ hsteps =>
      cases hsteps with
      | present _ | ended _ _ => exact h
      | closed _ _ _ _ | dropped _ _ _ _ _ =>
          right
          rfl
      | made _ hopen _ _ _ _ =>
          left
          rcases h with hle | hexhausted
          · apply hle.trans (size_le_size_materialize _ _)
          · apply absurd (hopen.symm.trans hexhausted) Bool.false_ne_true

theorem Admits.leads (h : r.Admits position) (hleads : r.Leads s) :
  s.Admits position
  := by
  induction hleads with
  | refl => exact h
  | tail _ hbecomes ih => apply ih.becomes hbecomes

/-- A cursor that has come to a variable stands behind it. -/
theorem Steps.admits {v : Variable} (h : r.Steps position (some v) s) :
  s.Admits (position + 1)
  := by
  left
  exact (Array.getElem?_eq_some_iff.mp h.getElem?).1

/-- There is no variable at the position, and there will be none. -/
structure IsOver (r : Request) (position : Nat) : Prop where
  size_le : r.size ≤ position
  rows : r.exhausted = true ∨ r.repeaters = 0
    ∨ r.nonRepeaters + r.maxRepetitions * r.repeaters ≤ position

/-- Where there will be no variable, a cursor comes to none. -/
theorem IsOver.eq_none (h : r.IsOver position) {found : Option Variable}
    (hsteps : r.Steps position found s) :
  found = none
  := by
  cases hsteps with
  | present hv =>
      apply absurd (Array.getElem?_eq_some_iff.mp hv).1 h.size_le.not_gt
  | ended _ _ | closed _ _ _ _ | dropped _ _ _ _ _ => rfl
  | made _ hopen hrepeaters hbound _ _ =>
      have hrows := h.rows
      rw [hopen] at hrows
      grind

/-- Once a cursor has come to nothing, there will be no variable at its position. Unless the rows
have ended, the request has not changed. -/
theorem IsInRows.over_of_none (h : start.IsInRows r) (hnew : start.IsNew)
    (hadmits : r.Admits position) (hsteps : r.Steps position none s) :
  s.IsOver position ∧ (s = r ∨ s.exhausted = true)
  := by
  generalize hfound : none = found at hsteps
  cases hsteps with
  | present _ => cases hfound
  | ended hsize hover => exact ⟨⟨hsize, hover⟩, .inl rfl⟩
  | closed hopen hsize k hk => exact ⟨⟨hsize, .inl rfl⟩, .inr rfl⟩
  | dropped hopen hsize hrepeaters k hk =>
      refine ⟨⟨?_, .inl rfl⟩, .inr rfl⟩
      have hposition := hadmits.eq_size hopen hsize
      rw [size_take (by omega)]
      omega
  | made hsize hopen hrepeaters hbound hfits hmade =>
      obtain ⟨p, hp, heq⟩ := h.materialize_eq hnew hadmits hsize hopen hbound
      have hposition : position = r.vars.size := hadmits.eq_size hopen hsize
      rw [heq, Array.getElem?_push, if_pos hposition, ← hfound] at hmade
      cases hmade

/-- A cursor comes to nothing behind a whole number of rows. -/
theorem IsInRows.whole_of_none (h : start.IsInRows r) (hnew : start.IsNew)
    (hadmits : r.Admits position) (hrepeaters : 0 < r.repeaters)
    (hsteps : r.Steps position none s) :
  ∃ rows, s.size = r.nonRepeaters + rows * r.repeaters
  := by
  have hs := h.stepped hnew hadmits hsteps
  obtain ⟨⟨hsize, hover⟩, -⟩ := h.over_of_none hnew hadmits hsteps
  rw [hs.repeaters, hs.nonRepeaters, hs.maxRepetitions] at hover
  rw [h.repeaters] at hrepeaters ⊢
  rw [h.nonRepeaters]
  rcases hover with hexhausted | hnone | hbound
  · apply hs.whole hexhausted
  · apply absurd hnone hrepeaters.ne'
  · rcases hadmits.becomes (.stepped hadmits hsteps) with hposition | hexhausted
    · use start.maxRepetitions
      apply Nat.le_antisymm
      · apply hs.size_le.trans
        apply max_le (hnew.size_le_rows hrepeaters) le_rfl
      · apply hbound.trans hposition
    · apply hs.whole hexhausted

/-- What a cursor has found to be over is over for every cursor. -/
theorem IsInRows.next_of_none (h : start.IsInRows r) (hnew : start.IsNew)
    (hadmits : r.Admits position) (hnext : r.next position = (none, s)) :
  s.next position = (none, s) ∧ s.next s.size = (none, s)
  := by
  obtain ⟨⟨hsize, hover⟩, hsame⟩ := h.over_of_none hnew hadmits (steps_of_next hnext)
  by_cases hidle : s.exhausted = true ∨ s.repeaters = 0
  · exact ⟨next_of_idle hsize hidle, next_of_idle le_rfl hidle⟩
  · rw [not_or] at hidle
    obtain rfl := hsame.resolve_right hidle.1
    -- the cursor stands right behind the last variable
    rw [← hadmits.resolve_right hidle.1 |>.antisymm hsize]
    exact ⟨hnext, hnext⟩

/-- A request without more rows stays one, and gets no more variables. -/
theorem Becomes.exhausted (h : r.Becomes s) (hexhausted : r.exhausted = true) :
  s.exhausted = true ∧ s.size = r.size
  := by
  cases h with
  | treated htreated => exact ⟨htreated.exhausted.trans hexhausted, htreated.size_eq⟩
  | stepped _ hsteps =>
      cases hsteps with
      | present _ | ended _ _ => exact ⟨hexhausted, rfl⟩
      | closed hopen _ _ _ | dropped hopen _ _ _ _ | made _ hopen _ _ _ _ =>
          apply absurd (hopen.symm.trans hexhausted) Bool.false_ne_true

/-- Where there will be no variable, there will be none whatever happens. -/
theorem IsOver.becomes (h : r.IsOver position) (hr : start.IsInRows r) (hnew : start.IsNew)
    (hbecomes : r.Becomes s) :
  s.IsOver position
  := by
  have hs := hr.becomes hnew hbecomes
  have hsize := hr.size_ge.trans h.size_le
  by_cases hexhausted : r.exhausted = true
  · obtain ⟨hexhausted, hsame⟩ := hbecomes.exhausted hexhausted
    exact ⟨hsame.trans_le h.size_le, .inl hexhausted⟩
  · have hbound : start.nonRepeaters + start.maxRepetitions * start.repeaters ≤ position := by
      rcases h.rows with hover | hnone | hbound
      · apply absurd hover hexhausted
      · rw [← hr.repeaters, hnone, Nat.mul_zero, Nat.add_zero]
        apply hnew.nonRepeaters.trans hsize
      · rwa [hr.nonRepeaters, hr.maxRepetitions, hr.repeaters] at hbound
    constructor
    · apply hs.size_le.trans (max_le hsize hbound)
    · right; right
      rwa [hs.nonRepeaters, hs.maxRepetitions, hs.repeaters]

theorem IsOver.leads (h : r.IsOver position) (hr : start.IsInRows r) (hnew : start.IsNew)
    (hleads : r.Leads s) :
  s.IsOver position
  := by
  induction hleads with
  | refl => exact h
  | tail hleads hbecomes ih => apply ih.becomes (hr.leads hnew hleads) hnew hbecomes

/-! ### Repetitions -/

/-- The variable at the second index repeats the one at the first. -/
def Repeats (r : Request) (i j : Nat) : Prop :=
  ∃ v, r.vars[j]? = some v ∧ v.predecessor = some i

theorem IsInRows.repeats_iff (h : start.IsInRows r) (hnew : start.IsNew) {i j : Nat} :
  r.Repeats i j
    ↔ 0 < start.repeaters ∧ start.nonRepeaters ≤ i ∧ j < r.size ∧ j = i + start.repeaters
  := by
  have hle := h.size_le
  constructor
  · rintro ⟨v, hv, hbefore⟩
    have hlt : j < r.size := (Array.getElem?_eq_some_iff.mp hv).1
    have hplace := congrArg Prod.snd (h.place j v hv)
    change v.predecessor = _ at hplace
    rw [hbefore, placeAt] at hplace
    dsimp only at hplace
    split at hplace
    · cases hplace
    · obtain ⟨hrepeaters, hrow⟩ := hnew.row_of_lt (by omega)
      cases hplace
      omega
  · rintro ⟨hrepeaters, hi, hlt, rfl⟩
    have hfirst := hnew.size_le_of_row (k := 0) hrepeaters rfl
    have hplace := congrArg Prod.snd (h.place _ _ (Array.getElem?_eq_getElem hlt))
    rw [placeAt, if_neg (by omega), Nat.add_sub_cancel] at hplace
    exact ⟨_, Array.getElem?_eq_getElem hlt, hplace⟩

theorem getElem?_everyNth {α : Type} {step : Nat} (hstep : 0 < step) (l : List α) (k : Nat) :
  (everyNth step l)[k]? = l[k * step]?
  := by
  fun_induction everyNth step l generalizing k with
  | case1 => rw [List.getElem?_nil, List.getElem?_nil]
  | case2 a rest ih =>
      cases k with
      | zero =>
          rw [Nat.zero_mul]
          rfl
      | succ k =>
          have hplace : (k + 1) * step = step - 1 + k * step + 1 := by
            rw [Nat.succ_mul]
            omega
          rw [hplace, List.getElem?_cons_succ, List.getElem?_cons_succ, ih, List.getElem?_drop]

theorem everyNth_sublist {α : Type} (step : Nat) (l : List α) :
  (everyNth step l).Sublist l
  := by
  fun_induction everyNth step l with
  | case1 => apply List.Sublist.refl
  | case2 a rest ih => apply (ih.trans (List.drop_sublist _ _)).cons_cons

/-- What is gone through at steps of a certain size, from a position on. -/
theorem mem_everyNth_range {step size first j : Nat} (hstep : 0 < step) :
  j ∈ everyNth step ((List.range size).drop first) ↔ j < size ∧ ∃ k, j = first + k * step
  := by
  rw [List.mem_iff_getElem?]
  constructor
  · rintro ⟨k, hk⟩
    rw [getElem?_everyNth hstep, List.getElem?_drop] at hk
    obtain ⟨hlt, heq⟩ := List.getElem?_eq_some_iff.mp hk
    rw [List.length_range] at hlt
    rw [List.getElem_range] at heq
    exact ⟨heq ▸ hlt, k, heq.symm⟩
  · rintro ⟨hlt, k, rfl⟩
    use k
    rw [getElem?_everyNth hstep, List.getElem?_drop, List.getElem?_range hlt]

/-- Only repeaters are repeated. -/
theorem repetitionsOf_of_single {i : Nat} (h : r.repeaters = 0 ∨ i < r.nonRepeaters) :
  r.repetitionsOf i = []
  := by
  rw [repetitionsOf, if_pos h, List.drop_eq_nil_of_le, everyNth]
  rw [List.length_range]

theorem repetitionsOf_of_repeater {i : Nat} (h : ¬ (r.repeaters = 0 ∨ i < r.nonRepeaters)) :
  r.repetitionsOf i = everyNth r.repeaters ((List.range r.size).drop (i + r.repeaters))
  := by
  rw [repetitionsOf, if_neg h, Nat.max_eq_left]
  omega

theorem mem_repetitionsOf {i j : Nat} :
  j ∈ r.repetitionsOf i
    ↔ 0 < r.repeaters ∧ r.nonRepeaters ≤ i ∧ j < r.size
      ∧ ∃ rows, j = i + (rows + 1) * r.repeaters
  := by
  by_cases hsingle : r.repeaters = 0 ∨ i < r.nonRepeaters
  · rw [repetitionsOf_of_single hsingle]
    simp only [List.not_mem_nil, false_iff]
    omega
  · have hrow : ∀ rows, i + (rows + 1) * r.repeaters = i + r.repeaters + rows * r.repeaters := by
      intro rows
      rw [Nat.succ_mul]
      omega
    rw [repetitionsOf_of_repeater hsingle, mem_everyNth_range (by omega)]
    simp only [hrow]
    rw [not_or] at hsingle
    have hrepeaters : 0 < r.repeaters := Nat.pos_of_ne_zero hsingle.1
    have hrepeater : r.nonRepeaters ≤ i := Nat.le_of_not_lt hsingle.2
    tauto

/-- The repetitions of a variable are those from which one comes to it, going from repetition to
predecessor. -/
theorem IsInRows.mem_repetitionsOf_iff (h : start.IsInRows r) (hnew : start.IsNew) {i j : Nat} :
  j ∈ r.repetitionsOf i ↔ Relation.TransGen r.Repeats i j
  := by
  rw [mem_repetitionsOf, h.repeaters, h.nonRepeaters]
  constructor
  · rintro ⟨hrepeaters, hi, hlt, rows, rfl⟩
    induction rows with
    | zero =>
        apply Relation.TransGen.single
        rw [h.repeats_iff hnew]
        rw [Nat.zero_add, Nat.one_mul] at hlt ⊢
        exact ⟨hrepeaters, hi, hlt, rfl⟩
    | succ rows ih =>
        rw [Nat.succ_mul (rows + 1), ← Nat.add_assoc] at hlt ⊢
        apply Relation.TransGen.tail (ih ((Nat.le_add_right _ _).trans_lt hlt))
        rw [h.repeats_iff hnew]
        exact ⟨hrepeaters, Nat.le_add_right_of_le hi, hlt, rfl⟩
  · intro hchain
    induction hchain with
    | single hrepeats =>
        obtain ⟨hrepeaters, hi, hlt, rfl⟩ := (h.repeats_iff hnew).mp hrepeats
        refine ⟨hrepeaters, hi, hlt, 0, ?_⟩
        rw [Nat.zero_add, Nat.one_mul]
    | tail _ hrepeats ih =>
        obtain ⟨hrepeaters, hi, -, rows, rfl⟩ := ih
        obtain ⟨-, -, hlt, rfl⟩ := (h.repeats_iff hnew).mp hrepeats
        refine ⟨hrepeaters, hi, hlt, rows + 1, ?_⟩
        rw [Nat.succ_mul (rows + 1), ← Nat.add_assoc]

end Request

end MibAgent
