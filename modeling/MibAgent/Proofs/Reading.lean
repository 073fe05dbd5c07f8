import MibAgent.Proofs.Searches

/-!
# Reading variable by variable

A read goes through the variables of its request in their order. The variables of a later row come
into being when they are reached, each from the one before it in its column. Whatever is known of
every variable that has been read, given the OID it asked for, is known of all of them in the end,
and what is known of the rows tells why there are no more of them.
-/

namespace MibAgent

open AgentM (Ensures Gives)

variable {σ : Type}

/-! ### Variables that are to be read -/

/-- The variable asks for an OID, or for what comes after it, and has not been read. -/
structure Variable.Asks (v : Variable) (op : Operation) (x : Oid) : Prop where
  binding : v.binding = .ask x
  scope : v.scope = if op.isNext then .after x else .exact x
  healthy : v.status = .noError
  unread : v.isComplete = false

theorem Request.asks_askedFor {op : Operation} (h : op.isWrite = false) (index : Nat)
    (b : Binding) :
  (askedFor op index b).Asks op b.oid
  where
  binding := by
    rw [askedFor, h]
    rfl
  scope := rfl
  healthy := rfl
  unread := rfl

theorem Variable.asks_repetition {op : Operation} (h : op.isNext) (index predecessor : Nat)
    {p : Variable} (hp : p.binding.isException = false) :
  (repetition index predecessor p).Asks op p.binding.oid
  where
  binding := by
    rw [repetition, hp]
    rfl
  scope := by
    rw [h]
    rfl
  healthy := rfl
  unread := hp

theorem Operation.isWrite_of_isNext {op : Operation} (h : op.isNext) :
  op.isWrite = false
  := by
  cases op with
  | set => cases h
  | _ => rfl

namespace Request

/-- Nothing has been done with the request yet, whatever it has been made for. -/
structure IsNew (start : Request) : Prop where
  open' : start.exhausted = false
  nonRepeaters : start.nonRepeaters ≤ start.size
  /-- The first row is there, if any row is asked for. -/
  row : 0 < start.repeaters → 0 < start.maxRepetitions →
    start.size = start.nonRepeaters + start.repeaters
  /-- No row is there, if none is asked for. -/
  noRow : 0 < start.repeaters → start.maxRepetitions = 0 → start.size = start.nonRepeaters
  requested : start.size ≤ start.requested.length

/-- The variables of a new request are those asked for, but for the repeaters of no rows. -/
theorem size_create (context : RequestContext) (transaction : Nat) (pdu : Pdu) (maxSize : Nat) :
  let start := create context transaction pdu maxSize
  start.size = if start.operation = .getBulk ∧ start.maxRepetitions = 0 then start.nonRepeaters
    else start.requested.length
  := by
  simp only [create, size, operation, List.size_toArray, List.length_mapIdx, List.length_take]
  grind

/-- A bulk read has every binding read once or repeated. Nothing else has rows. -/
theorem repeaters_create (context : RequestContext) (transaction : Nat) (pdu : Pdu)
    (maxSize : Nat) :
  let start := create context transaction pdu maxSize
  if start.operation = .getBulk then
    start.nonRepeaters + start.repeaters = start.requested.length
  else start.nonRepeaters = 0 ∧ start.repeaters = 0
  := by
  simp only [create, operation]
  grind

theorem isNew_create (context : RequestContext) (transaction : Nat) (pdu : Pdu) (maxSize : Nat) :
  (create context transaction pdu maxSize).IsNew
  := by
  have hsize := size_create context transaction pdu maxSize
  have hrepeaters := repeaters_create context transaction pdu maxSize
  constructor
  · rfl
  all_goals grind

/-- The request has been made for a read, and nothing has been done with it. -/
structure IsNewRead (start : Request) : Prop extends start.IsNew where
  asks : ∀ (i : Nat) (v : Variable), start.vars[i]? = some v → ∃ x, v.Asks start.operation x
  repeats : 0 < start.repeaters → start.operation.isNext

theorem isWrite_create (context : RequestContext) (transaction : Nat) {pdu : Pdu} (maxSize : Nat)
    (h : pdu.operation.isWrite = false) :
  (create context transaction pdu maxSize).operation.isWrite = false
  := by
  rw [create, operation, effectiveOperation]
  dsimp only
  split
  · rfl
  · apply h

theorem isNext_create (context : RequestContext) (transaction : Nat) {pdu : Pdu} (maxSize : Nat)
    (h : pdu.operation.isNext) :
  (create context transaction pdu maxSize).operation.isNext
  := by
  rw [create, operation, effectiveOperation]
  dsimp only
  split
  · rfl
  · apply h

theorem isNewRead_create (context : RequestContext) (transaction : Nat) {pdu : Pdu} (maxSize : Nat)
    (h : pdu.operation.isWrite = false) :
  (create context transaction pdu maxSize).IsNewRead
  := by
  have hwrite : (effectiveOperation context.version pdu.operation).isWrite = false :=
    isWrite_create context transaction maxSize h
  refine ⟨isNew_create context transaction pdu maxSize, ?_, ?_⟩
  · intro i v hv
    rw [create, List.getElem?_toArray, List.getElem?_mapIdx] at hv
    obtain ⟨b, -, rfl⟩ := Option.map_eq_some_iff.mp hv
    exact ⟨b.oid, asks_askedFor hwrite i b⟩
  · intro hrepeaters
    by_cases hbulk : effectiveOperation context.version pdu.operation = .getBulk
    · rw [create, operation, hbulk]
      rfl
    · simp only [create, if_neg hbulk] at hrepeaters
      cases hrepeaters

/-- The requests differ at most in their variables and in whether there will be more rows. -/
def Continues (start r : Request) : Prop :=
  { start with vars := r.vars, exhausted := r.exhausted } = r

namespace Continues

variable {start r : Request} (h : start.Continues r)
include h

theorem context : r.context = start.context := by rw [← h]

theorem nonRepeaters : r.nonRepeaters = start.nonRepeaters := by rw [← h]

theorem maxRepetitions : r.maxRepetitions = start.maxRepetitions := by rw [← h]

theorem repeaters : r.repeaters = start.repeaters := by rw [← h]

theorem maxSize : r.maxSize = start.maxSize := by rw [← h]

theorem requested : r.requested = start.requested := by rw [← h]

theorem withVars (vars : Array Variable) (exhausted : Bool) :
  start.Continues { r with vars, exhausted }
  := by
  have hvars := congrArg (fun t : Request => { t with vars, exhausted }) h
  exact hvars

end Continues

/-! ### Rows -/

theorem mem_row_iff {r : Request} {k : Nat} {v : Variable} :
  v ∈ r.row k ↔ ∃ i, r.nonRepeaters + k * r.repeaters ≤ i
    ∧ i < r.nonRepeaters + (k + 1) * r.repeaters ∧ r.vars[i]? = some v
  := by
  rw [row, Array.mem_extract_iff_getElem]
  constructor
  · rintro ⟨i, hi, rfl⟩
    refine ⟨_, Nat.le_add_right _ _, ?_, Array.getElem?_eq_getElem _⟩
    omega
  · rintro ⟨i, hfrom, hto, hv⟩
    obtain ⟨hsize, rfl⟩ := Array.getElem?_eq_some_iff.mp hv
    use i - (r.nonRepeaters + k * r.repeaters), by omega
    congr 1
    omega

/-- Something in a row is not the end of the view. -/
def Goes (r : Request) (k : Nat) : Prop := ∃ v ∈ r.row k, v.binding.value ≠ .endOfMibView

/-- A row holds the same as long as the variables up to its end are the same. -/
theorem Goes.congr {start r s : Request} {k : Nat} (h : r.Goes k) (hr : start.Continues r)
    (hs : start.Continues s)
    (hvars : ∀ i, i < start.nonRepeaters + (k + 1) * start.repeaters → s.vars[i]? = r.vars[i]?) :
  s.Goes k
  := by
  obtain ⟨v, hv, hvalue⟩ := h
  rw [mem_row_iff, hr.nonRepeaters, hr.repeaters] at hv
  obtain ⟨i, hfrom, hto, hv⟩ := hv
  use v
  rw [mem_row_iff, hs.nonRepeaters, hs.repeaters]
  exact ⟨⟨i, hfrom, hto, (hvars i hto).trans hv⟩, hvalue⟩

theorem row_lt_row_iff {r : Request} (h : 0 < r.repeaters) {j k : Nat} :
  r.nonRepeaters + j * r.repeaters < r.nonRepeaters + k * r.repeaters ↔ j < k
  := by rw [Nat.add_lt_add_iff_left, Nat.mul_lt_mul_right h]

/-! ### How far a read has come -/

/-- The OID that the variable at a position asks for, or for what comes after it: in the first row
as the request was made, later that of the variable before it in its column. -/
def askedAt? (start r : Request) (i : Nat) : Option Oid :=
  (start.vars[i]?.or r.vars[i - start.repeaters]?).map (·.binding.oid)

/-- The variables before a position have been read, and `Q` holds of each of them and the OID that it
asked for. -/
structure IsReadTo (start : Request) (Q : Oid → Variable → Prop) (position : Nat) (r : Request) :
    Prop where
  continues : start.Continues r
  open' : r.exhausted = false
  size : r.size = max start.size position
  read : ∀ i, i < position → ∃ x v, start.askedAt? r i = some x ∧ r.vars[i]? = some v ∧ Q x v
  unread : ∀ i, position ≤ i → i < start.size → r.vars[i]? = start.vars[i]?
  bounded : position ≤ max start.size (start.nonRepeaters + start.maxRepetitions * start.repeaters)
  /-- The rows that have been closed let another one follow. -/
  goes : ∀ k, 0 < start.repeaters →
    start.nonRepeaters + (k + 1) * start.repeaters < position → r.Goes k

variable {start r s : Request} {Q : Oid → Variable → Prop} {position : Nat}

theorem askedAt?_congr {i : Nat} {x : Oid} (hx : start.askedAt? r i = some x)
    (h : start.vars[i]? = none → s.vars[i - start.repeaters]? = r.vars[i - start.repeaters]?) :
  start.askedAt? s i = some x
  := by
  rw [← hx, askedAt?, askedAt?]
  cases hv : start.vars[i]? with
  | some v => rfl
  | none => rw [h hv]

theorem IsNewRead.isReadTo (h : start.IsNewRead) :
  start.IsReadTo Q 0 start
  where
  continues := rfl
  open' := h.open'
  size := (Nat.max_zero _).symm
  read := nofun
  unread _ _ _ := rfl
  bounded := Nat.zero_le _
  goes := nofun

/-- The variable at the position has been read, and no other has changed. -/
theorem IsReadTo.advance (h : start.IsReadTo Q position r) {x : Oid} {w : Variable}
    (hcontinues : start.Continues s) (hopen : s.exhausted = false)
    (hsize : s.size = max start.size (position + 1))
    (hothers : ∀ i, i ≠ position → s.vars[i]? = r.vars[i]?)
    (hw : s.vars[position]? = some w) (hx : start.askedAt? r position = some x) (hQ : Q x w)
    (hbound : position
      < max start.size (start.nonRepeaters + start.maxRepetitions * start.repeaters))
    (hgoes : ∀ k, 0 < start.repeaters →
      start.nonRepeaters + (k + 1) * start.repeaters = position → r.Goes k) :
  start.IsReadTo Q (position + 1) s
  := by
  refine ⟨hcontinues, hopen, hsize, ?_, ?_, hbound, ?_⟩
  · intro i hi
    rcases Nat.lt_succ_iff_lt_or_eq.mp hi with hi | rfl
    · obtain ⟨y, v, hy, hv, hQ⟩ := h.read i hi
      refine ⟨y, v, ?_, ?_, hQ⟩
      · apply askedAt?_congr hy
        intro _
        apply hothers
        omega
      · rw [hothers i hi.ne, hv]
    · refine ⟨x, w, ?_, hw, hQ⟩
      apply askedAt?_congr hx
      intro hnew
      -- a variable that was not there in the beginning has one before it in its column
      rw [askedAt?, hnew, Option.none_or] at hx
      obtain ⟨v, hv, -⟩ := Option.map_eq_some_iff.mp hx
      have hbefore : i - start.repeaters < r.size := (Array.getElem?_eq_some_iff.mp hv).1
      have hlate : start.size ≤ i := Array.getElem?_eq_none_iff.mp hnew
      rw [h.size] at hbefore
      apply hothers
      omega
  · intro i hi hstart
    rw [hothers i (by omega), h.unread i (by omega) hstart]
  · intro k hpositive hk
    have hrow : r.Goes k := by
      rcases Nat.lt_succ_iff_lt_or_eq.mp hk with hk | hk
      · apply h.goes k hpositive hk
      · apply hgoes k hpositive hk
    apply hrow.congr h.continues hcontinues
    intro i hi
    apply hothers
    omega

/-- The cursor has come to a variable that asks for an OID. Once the variable has been read, the
read has come one position further. -/
structure IsAt (start : Request) (Q : Oid → Variable → Prop) (position : Nat) (x : Oid)
    (v : Variable) (r : Request) : Prop where
  continues : start.Continues r
  present : r.vars[position]? = some v
  due : v.Asks start.operation x ∨ v.isComplete ∧ Q x v
  further : ∀ w, Q x w → start.IsReadTo Q (position + 1) (r.modify position fun _ => w)

/-- The variables that the response is made from. The rows end because there are as many as were
asked for, because another one would say nothing but the end of the view, or because another one of
the size of the last one would not fit. -/
structure IsFinished (start : Request) (Q : Oid → Variable → Prop) (r : Request) : Prop where
  continues : start.Continues r
  size_le : start.size ≤ r.size
  read : ∀ i, i < r.size → ∃ x v, start.askedAt? r i = some x ∧ r.vars[i]? = some v ∧ Q x v
  single : start.repeaters = 0 ∨ start.maxRepetitions = 0 → r.size = start.size
  rows : 0 < start.repeaters → 0 < start.maxRepetitions →
    ∃ last, last < start.maxRepetitions
      ∧ r.size = start.nonRepeaters + (last + 1) * start.repeaters
      ∧ (∀ k, 1 ≤ k → k ≤ last → r.Goes k)
      ∧ (last + 1 < start.maxRepetitions →
        (∀ v ∈ r.row last, ∃ w, Q v.binding.oid w ∧ w.binding.value = .endOfMibView)
          ∨ start.maxSize < r.encodedSize
            + Size.total ((r.row last).toList.map (·.binding.encodedSize)))

theorem modify_present {v : Variable} (h : r.vars[position]? = some v) :
  r.modify position (fun _ => v) = r
  := by
  have hvars : r.vars.modify position (fun _ => v) = r.vars := by
    apply Array.ext_getElem?
    intro i
    rw [Array.getElem?_modify]
    split
    · rename_i heq
      rw [← heq, h]
      rfl
    · rfl
  rw [modify, hvars]

/-- A read of a single variable ends with a single variable. -/
theorem IsFinished.eq_single (h : start.IsFinished Q r) {v : Variable} (hv : start.vars = #[v])
    (hrepeaters : start.repeaters = 0) :
  ∃ w, r.vars = #[w] ∧ Q v.binding.oid w
  := by
  have hsize : r.vars.size = 1 := by
    apply (h.single (.inl hrepeaters)).trans
    rw [size, hv]
    rfl
  obtain ⟨w, hw⟩ := Array.size_eq_one_iff.mp hsize
  obtain ⟨x, w', hx, hw', hQ⟩ := h.read 0 (by rw [size, hsize]; exact Nat.one_pos)
  rw [askedAt?, hv] at hx
  cases hx
  rw [hw] at hw'
  cases hw'
  exact ⟨w, hw, hQ⟩

/-! ### Where the cursor comes to -/

theorem next_of_lt (h : position < r.size) :
  r.next position = (r.vars[position]?, r)
  := by
  rw [next, hasNext, if_pos h]
  dsimp only
  rw [materialize, if_pos (.inl h)]

/-- Behind the last variable one is made from the one that stands a row before. -/
theorem materialize_of_size_le {p : Variable} (hsize : r.size ≤ position)
    (hrepeaters : 0 < r.repeaters) (hle : r.repeaters ≤ position)
    (hp : r.vars[position - r.repeaters]? = some p) :
  r.materialize position
    = { r with vars := r.vars.push (.repetition position (position - r.repeaters) p) }
  := by
  rw [materialize, if_neg]
  · dsimp only
    rw [hp]
  · omega

theorem size_take {n : Nat} (hn : n ≤ r.size) (exhausted : Bool) :
  ({ r with vars := r.vars.take n, exhausted }).size = n
  := by
  rw [size, Array.take_eq_extract, Array.size_extract, Nat.sub_zero]
  apply Nat.min_eq_left hn

/-- What becomes of a request when one of its rows is finished. -/
theorem closeRow_row {k : Nat} (h : position = r.nonRepeaters + (k + 1) * r.repeaters) :
  r.closeRow position =
    if (r.row k).all (·.binding.value == .endOfMibView) then
      (false, { r with
        vars := if r.nonRepeaters < r.nonRepeaters + k * r.repeaters
          then r.vars.take (r.nonRepeaters + k * r.repeaters) else r.vars
        exhausted := true })
    else if r.maxSize < r.encodedSize
        + Size.total ((r.row k).toList.map (·.binding.encodedSize)) then
      (false, { r with exhausted := true })
    else (true, r)
  := by
  have hstart : position - r.repeaters = r.nonRepeaters + k * r.repeaters := by
    rw [h, Nat.add_mul, Nat.one_mul, ← Nat.add_assoc, Nat.add_sub_cancel]
  rw [closeRow, hstart, row, h]

theorem all_endOfMibView_eq_false_iff {k : Nat} :
  (r.row k).all (·.binding.value == .endOfMibView) = false ↔ r.Goes k
  := by
  rw [← Bool.not_eq_true, Array.all_eq_true', Goes]
  simp only [beq_iff_eq]
  grind

/-- One position comes a whole number of rows after another. -/
theorem wholeRows_iff {first repeaters : Nat} (h : 0 < repeaters) :
  (first < position ∧ (position - first) % repeaters = 0)
    ↔ ∃ k, position = first + (k + 1) * repeaters
  := by
  constructor
  · rintro ⟨hlt, hmod⟩
    obtain ⟨rows, hrows⟩ := Nat.dvd_of_mod_eq_zero hmod
    cases rows with
    | zero => omega
    | succ k =>
        use k
        rw [Nat.mul_comm (k + 1), ← hrows]
        omega
  · rintro ⟨k, rfl⟩
    rw [Nat.add_sub_cancel_left, Nat.mul_mod_left]
    constructor
    · apply Nat.lt_add_of_pos_right
      apply Nat.mul_pos (Nat.succ_pos k) h
    · rfl

/-- A finished row after which there may be another one leaves the request as it is. -/
theorem closeRow_open (h : (r.closeRow position).1 = true) :
  r.closeRow position = (true, r)
  := by
  rw [closeRow] at h ⊢
  split
  · rename_i hall
    rw [if_pos hall] at h
    cases h
  · rename_i hall
    rw [if_neg hall] at h
    split
    · rename_i hsize
      rw [if_pos hsize] at h
      cases h
    · rfl

/-- Where there is no variable yet, the cursor may have come to the end of a row after which there is
no other one. Otherwise there are rows until there are as many as were asked for. -/
theorem hasNext_of_size_le (h : r.size ≤ position) (hopen : r.exhausted = false)
    (hrepeaters : 0 < r.repeaters) :
  (∃ k, position = r.nonRepeaters + (k + 1) * r.repeaters ∧ (r.closeRow position).1 = false
      ∧ r.hasNext position = (false, (r.closeRow position).2))
    ∨ (∀ k, position = r.nonRepeaters + (k + 1) * r.repeaters → (r.closeRow position).1 = true)
      ∧ r.hasNext position
        = (decide (position < r.nonRepeaters + r.maxRepetitions * r.repeaters), r)
  := by
  have hgoing : ¬ (r.exhausted || r.repeaters == 0) = true := by
    rw [hopen, Bool.false_or, beq_iff_eq]
    exact hrepeaters.ne'
  by_cases hfinished : r.nonRepeaters < position ∧ (position - r.nonRepeaters) % r.repeaters = 0
  · obtain ⟨k, hk⟩ := (wholeRows_iff hrepeaters).mp hfinished
    cases hclose : (r.closeRow position).1 with
    | false =>
        left
        use k, hk, rfl
        simp only [hasNext, if_neg h.not_gt, if_neg hgoing, if_pos hfinished, hclose,
          Bool.false_and]
    | true =>
        right
        use fun _ _ => rfl
        simp only [hasNext, if_neg h.not_gt, if_neg hgoing, if_pos hfinished,
          closeRow_open hclose, Bool.true_and]
  · right
    constructor
    · intro k hk
      apply absurd ((wholeRows_iff hrepeaters).mpr ⟨k, hk⟩) hfinished
    · simp only [hasNext, if_neg h.not_gt, if_neg hgoing, if_neg hfinished, Bool.true_and]

/-- No row ends before the variables that were there in the beginning do. -/
theorem IsNew.size_le_of_row (h : start.IsNew) {k : Nat} (hrepeaters : 0 < start.repeaters)
    (hk : position = start.nonRepeaters + (k + 1) * start.repeaters) :
  start.size ≤ position
  := by
  have hrow : start.repeaters ≤ (k + 1) * start.repeaters :=
    Nat.le_mul_of_pos_left _ (Nat.succ_pos k)
  rcases Nat.eq_zero_or_pos start.maxRepetitions with hnone | hsome
  · rw [hk, h.noRow hrepeaters hnone]
    apply Nat.le_add_right
  · rw [hk, h.row hrepeaters hsome]
    apply Nat.add_le_add_left hrow

/-- The cursor has come to a variable that was there in the beginning. -/
theorem IsReadTo.isAt_of_lt (h : start.IsReadTo Q position r) (hnew : start.IsNewRead)
    (hposition : position < start.size) :
  ∃ x v, r.next position = (some v, r) ∧ start.IsAt Q position x v r
  := by
  have hsize : r.size = start.size := by
    rw [h.size]
    apply Nat.max_eq_left hposition.le
  have hstart : r.vars[position]? = start.vars[position]? := h.unread position le_rfl hposition
  obtain ⟨v, hv⟩ : ∃ v, start.vars[position]? = some v := ⟨_, Array.getElem?_eq_getElem hposition⟩
  obtain ⟨x, hasks⟩ := hnew.asks position v hv
  have hx : start.askedAt? r position = some x := by
    rw [askedAt?, hv, Option.some_or, Option.map_some, hasks.binding]
    rfl
  rw [hv] at hstart
  use x, v
  rw [next_of_lt (hposition.trans_eq hsize.symm), hstart]
  refine ⟨rfl, h.continues, hstart, .inl hasks, ?_⟩
  intro w hw
  apply h.advance (s := r.modify position fun _ => w) (h.continues.withVars _ _) h.open' _ _ _
    hx hw
  · apply lt_max_of_lt_left hposition
  · intro k hrepeaters hk
    apply absurd (hnew.toIsNew.size_le_of_row hrepeaters hk.symm) hposition.not_ge
  · rw [Request.size, modify, Array.size_modify, max_eq_left (Nat.succ_le_of_lt hposition)]
    apply hsize
  · intro i hi
    rw [modify, Array.getElem?_modify, if_neg hi.symm]
  · rw [modify, Array.getElem?_modify, if_pos rfl, hstart]
    rfl

/-- The cursor has come to where a variable comes into being from the one before it in its column. -/
theorem IsReadTo.isAt_of_size_le (h : start.IsReadTo Q position r) (hnew : start.IsNewRead)
    (hrepetition : ∀ x p index predecessor, Q x p → p.binding.isException →
      Q p.binding.oid (.repetition index predecessor p))
    (hrepeaters : 0 < start.repeaters) (hposition : start.size ≤ position)
    (hbound : position < start.nonRepeaters + start.maxRepetitions * start.repeaters)
    (hnext : r.hasNext position = (true, r))
    (hgoes : ∀ k, position = start.nonRepeaters + (k + 1) * start.repeaters → r.Goes k) :
  ∃ x v s, r.next position = (some v, s) ∧ start.IsAt Q position x v s
  := by
  have hsize : r.vars.size = position := h.size.trans (max_eq_right hposition)
  have hrows : 0 < start.maxRepetitions := by
    apply Nat.pos_of_ne_zero
    intro hnone
    rw [hnone, Nat.zero_mul, Nat.add_zero] at hbound
    apply absurd (hnew.noRow hrepeaters hnone ▸ hposition) hbound.not_ge
  have hfirst := hnew.row hrepeaters hrows
  have hbefore : position - start.repeaters < position := by omega
  obtain ⟨y, p, -, hp, hQ⟩ := h.read _ hbefore
  let v : Variable := .repetition position (position - start.repeaters) p
  have hmaterialize : r.materialize position = { r with vars := r.vars.push v } := by
    have hsame := h.continues.repeaters
    rw [materialize_of_size_le hsize.le (hsame ▸ hrepeaters) (by omega) (hsame ▸ hp), hsame]
  have hlast : (r.vars.push v)[position]? = some v := by
    rw [Array.getElem?_push, if_pos hsize.symm]
  have hx : start.askedAt? r position = some p.binding.oid := by
    rw [askedAt?, Array.getElem?_eq_none_iff.mpr hposition, Option.none_or, hp]
    rfl
  use p.binding.oid, v, { r with vars := r.vars.push v }
  constructor
  · rw [next, hnext]
    dsimp only
    rw [hmaterialize]
    dsimp only
    rw [hlast]
  · refine ⟨h.continues.withVars _ _, hlast, ?_, ?_⟩
    · cases hexception : p.binding.isException with
      | true =>
          right
          exact ⟨hexception, hrepetition y p _ _ hQ hexception⟩
      | false =>
          left
          apply Variable.asks_repetition (hnew.repeats hrepeaters) _ _ hexception
    · intro w hw
      apply h.advance (s := Request.modify { r with vars := r.vars.push v } position fun _ => w)
        (h.continues.withVars _ _) h.open' _ _ _ hx hw
      · apply lt_max_of_lt_right hbound
      · intro k _ hk
        apply hgoes k hk.symm
      · rw [Request.size, modify, Array.size_modify, Array.size_push, hsize,
          max_eq_right (Nat.le_succ_of_le hposition)]
      · intro i hi
        rw [modify, Array.getElem?_modify, if_neg hi.symm, Array.getElem?_push, if_neg]
        rwa [hsize]
      · rw [modify, Array.getElem?_modify, if_pos rfl, hlast]
        rfl

/-! ### Where a read ends -/

/-- Without rows to come, the read ends with the variables that were there in the beginning. -/
theorem IsReadTo.isFinished_single (h : start.IsReadTo Q position r) (hnew : start.IsNewRead)
    (hsingle : start.repeaters = 0 ∨ start.maxRepetitions = 0) (hposition : start.size ≤ position) :
  start.IsFinished Q r
  := by
  have hbound := h.bounded
  rw [Nat.mul_eq_zero.mpr hsingle.symm, Nat.add_zero, max_eq_left hnew.nonRepeaters] at hbound
  have hsize : r.size = start.size := by rw [h.size, max_eq_left hbound]
  refine ⟨h.continues, hsize.ge, ?_, fun _ => hsize, ?_⟩
  · intro i hi
    apply h.read i
    rw [hsize] at hi
    apply hi.trans_le hposition
  · intro hrepeaters hrows
    rcases hsingle with hnone | hnone
    · apply absurd hnone hrepeaters.ne'
    · apply absurd hnone hrows.ne'

/-- There are no more rows than were asked for. -/
theorem IsReadTo.row_lt (h : start.IsReadTo Q position r) (hnew : start.IsNewRead)
    (hrepeaters : 0 < start.repeaters) (hrows : 0 < start.maxRepetitions) {k : Nat}
    (hk : position = start.nonRepeaters + (k + 1) * start.repeaters) :
  k < start.maxRepetitions
  := by
  obtain ⟨rows, hsucc⟩ := Nat.exists_eq_succ_of_ne_zero hrows.ne'
  have hbound := h.bounded
  rw [max_eq_right (hnew.toIsNew.size_le_of_row hrepeaters (by rw [hsucc])), hk] at hbound
  rw [← Nat.succ_le_iff, ← not_lt, ← row_lt_row_iff hrepeaters, not_lt]
  apply hbound

/-- The read ends with a row that is not dropped. -/
theorem IsReadTo.isFinished_row (h : start.IsReadTo Q position r) (hnew : start.IsNewRead)
    (hrepeaters : 0 < start.repeaters) (hrows : 0 < start.maxRepetitions) {k : Nat}
    (hk : position = start.nonRepeaters + (k + 1) * start.repeaters)
    (hgoes : 1 ≤ k → r.Goes k) (exhausted : Bool)
    (hends : k + 1 < start.maxRepetitions →
      (∀ v ∈ r.row k, ∃ w, Q v.binding.oid w ∧ w.binding.value = .endOfMibView)
        ∨ start.maxSize < r.encodedSize
          + Size.total ((r.row k).toList.map (·.binding.encodedSize))) :
  start.IsFinished Q { r with exhausted }
  := by
  have hstart := hnew.toIsNew.size_le_of_row hrepeaters hk
  have hsize : r.size = position := h.size.trans (max_eq_right hstart)
  refine ⟨h.continues.withVars _ _, hstart.trans_eq hsize.symm, ?_, ?_, ?_⟩
  · intro i hi
    apply h.read i (hi.trans_eq hsize)
  · rintro (hnone | hnone)
    · apply absurd hnone hrepeaters.ne'
    · apply absurd hnone hrows.ne'
  · intro _ _
    refine ⟨k, h.row_lt hnew hrepeaters hrows hk, hsize.trans hk, ?_, hends⟩
    intro j hpositive hj
    rcases hj.lt_or_eq with hlt | rfl
    · apply h.goes j hrepeaters
      rw [hk, row_lt_row_iff hrepeaters]
      apply Nat.succ_lt_succ hlt
    · apply hgoes hpositive

/-- In a row that does not go on, every variable says that it is the end of the view. -/
theorem value_of_not_goes {k : Nat} (h : ¬ r.Goes k) {v : Variable} (hv : v ∈ r.row k) :
  v.binding.value = .endOfMibView
  := by
  by_contra hvalue
  apply h ⟨v, hv, hvalue⟩

/-- The read ends with a row that is dropped, because it says nothing but the end of the view. -/
theorem IsReadTo.isFinished_dropped (h : start.IsReadTo Q position r) (hnew : start.IsNewRead)
    (hrepeaters : 0 < start.repeaters) (hrows : 0 < start.maxRepetitions) {k : Nat}
    (hk : position = start.nonRepeaters + (k + 1 + 1) * start.repeaters)
    (hends : ¬ r.Goes (k + 1)) :
  start.IsFinished Q { r with
    vars := r.vars.take (r.nonRepeaters + (k + 1) * r.repeaters)
    exhausted := true }
  := by
  let kept := start.nonRepeaters + (k + 1) * start.repeaters
  have hkept : r.nonRepeaters + (k + 1) * r.repeaters = kept := by
    rw [h.continues.nonRepeaters, h.continues.repeaters]
  rw [hkept]
  have hposition : position = kept + start.repeaters := by
    rw [hk, Nat.add_mul (k + 1), Nat.one_mul, ← Nat.add_assoc]
  have hstart : start.size ≤ kept := hnew.toIsNew.size_le_of_row hrepeaters rfl
  have hsize : r.vars.size = position := h.size.trans (max_eq_right (by omega))
  let s : Request := { r with vars := r.vars.take kept, exhausted := true }
  have hcontinues : start.Continues s := h.continues.withVars _ _
  have hvars : ∀ i, i < kept → s.vars[i]? = r.vars[i]? := by
    intro i hi
    simp only [s, Array.take_eq_extract, Array.getElem?_extract, Nat.sub_zero, Nat.zero_add]
    rw [if_pos]
    omega
  have hssize : s.size = kept := by
    apply size_take
    rw [Request.size]
    omega
  refine ⟨hcontinues, hstart.trans_eq hssize.symm, ?_, ?_, ?_⟩
  · intro i hi
    change i < s.size at hi
    rw [hssize] at hi
    obtain ⟨x, v, hx, hv, hQ⟩ := h.read i (by omega)
    refine ⟨x, v, ?_, ?_, hQ⟩
    · apply askedAt?_congr hx
      intro _
      apply hvars
      omega
    · apply (hvars i hi).trans hv
  · rintro (hnone | hnone)
    · apply absurd hnone hrepeaters.ne'
    · apply absurd hnone hrows.ne'
  · intro _ _
    refine ⟨k, Nat.lt_of_succ_lt (h.row_lt hnew hrepeaters hrows hk), hssize, ?_, ?_⟩
    · intro j _ hj
      have hend : start.nonRepeaters + (j + 1) * start.repeaters ≤ kept := by
        rw [← not_lt, row_lt_row_iff hrepeaters]
        omega
      apply (h.goes j hrepeaters _).congr h.continues hcontinues
      · intro i hi
        apply hvars i (hi.trans_le hend)
      · omega
    · -- the dropped row holds what comes after the one that is the last now
      intro _
      left
      intro v hv
      rw [mem_row_iff, hcontinues.nonRepeaters, hcontinues.repeaters] at hv
      obtain ⟨i, hfrom, hto, hv⟩ := hv
      have hi : start.nonRepeaters + (k + 1) * start.repeaters ≤ i + start.repeaters := by
        rw [Nat.add_mul, Nat.one_mul]
        omega
      obtain ⟨x, w, hx, hw, hQ⟩ := h.read (i + start.repeaters) (by omega)
      rw [askedAt?, Array.getElem?_eq_none_iff.mpr (hstart.trans hi), Option.none_or,
        Nat.add_sub_cancel, ← hvars i hto, hv] at hx
      cases hx
      use w, hQ
      apply value_of_not_goes hends
      rw [mem_row_iff, h.continues.nonRepeaters, h.continues.repeaters]
      exact ⟨_, hi, by omega, hw⟩

theorem next_of_hasNext (h : r.hasNext position = (false, s)) :
  r.next position = (none, s)
  := by rw [next, h]

/-- Without rows to come, the cursor comes to nothing new. -/
theorem IsReadTo.hasNext_single (h : start.IsReadTo Q position r) (hnew : start.IsNewRead)
    (hsingle : start.repeaters = 0 ∨ start.maxRepetitions = 0) (hposition : start.size ≤ position) :
  r.hasNext position = (false, r)
  := by
  have hsize : r.size ≤ position := by rw [h.size, max_eq_right hposition]
  rcases Nat.eq_zero_or_pos start.repeaters with hnone | hrepeaters
  · rw [hasNext, if_neg hsize.not_gt, if_pos]
    rw [h.continues.repeaters, hnone, beq_self_eq_true, Bool.or_true]
  · have hnone := hsingle.resolve_left hrepeaters.ne'
    have hfirst := hnew.noRow hrepeaters hnone
    have hbound := h.bounded
    rw [hnone, Nat.zero_mul, Nat.add_zero, hfirst, max_self] at hbound
    rcases hasNext_of_size_le hsize h.open' (h.continues.repeaters ▸ hrepeaters) with
      ⟨k, hk, -, -⟩ | ⟨-, hnext⟩
    · rw [h.continues.nonRepeaters, h.continues.repeaters, Nat.add_mul] at hk
      omega
    · rw [hnext, h.continues.nonRepeaters, h.continues.maxRepetitions, hnone, Nat.zero_mul,
        Nat.add_zero, decide_eq_false]
      omega

/-- A row after which there is no other one finishes the read. -/
theorem IsReadTo.isFinished_closeRow (h : start.IsReadTo Q position r) (hnew : start.IsNewRead)
    (hrepetition : ∀ x p index predecessor, Q x p → p.binding.isException →
      Q p.binding.oid (.repetition index predecessor p))
    (hrepeaters : 0 < start.repeaters) (hrows : 0 < start.maxRepetitions) {k : Nat}
    (hk : position = start.nonRepeaters + (k + 1) * start.repeaters)
    (hclose : (r.closeRow position).1 = false) :
  start.IsFinished Q (r.closeRow position).2
  := by
  rw [closeRow_row (by rw [hk, h.continues.nonRepeaters, h.continues.repeaters])] at hclose ⊢
  cases hall : (r.row k).all (·.binding.value == .endOfMibView) with
  | true =>
      have hends : ¬ r.Goes k := by
        rw [← all_endOfMibView_eq_false_iff, hall]
        decide
      rw [if_pos rfl]
      cases k with
      | zero =>
          rw [Nat.zero_mul, Nat.add_zero, if_neg (lt_irrefl _)]
          apply h.isFinished_row hnew hrepeaters hrows hk (fun hpositive => nomatch hpositive)
          intro _
          left
          intro v hv
          have hvalue := value_of_not_goes hends hv
          obtain ⟨i, -, hi, hv⟩ := mem_row_iff.mp hv
          rw [h.continues.nonRepeaters, h.continues.repeaters, ← hk] at hi
          obtain ⟨x, w, -, hw, hQ⟩ := h.read i hi
          cases hv.symm.trans hw
          have hexception : v.binding.isException := by
            rw [Binding.isException, hvalue]
            rfl
          use .repetition 0 0 v, hrepetition x v 0 0 hQ hexception
          rw [Variable.repetition, if_pos hexception, hvalue]
      | succ k =>
          rw [if_pos]
          · apply h.isFinished_dropped hnew hrepeaters hrows hk hends
          · apply Nat.lt_add_of_pos_right
            apply Nat.mul_pos (Nat.succ_pos k) (h.continues.repeaters ▸ hrepeaters)
  | false =>
      rw [hall, if_neg Bool.false_ne_true] at hclose
      rw [if_neg Bool.false_ne_true]
      split
      · rename_i hfull
        apply h.isFinished_row hnew hrepeaters hrows hk
        · intro _
          apply all_endOfMibView_eq_false_iff.mp hall
        · intro _
          right
          rwa [← h.continues.maxSize]
      · rename_i hfits
        rw [if_neg hfits] at hclose
        cases hclose

/-- The cursor comes to another variable, or the read is finished. -/
theorem IsReadTo.next_cases (h : start.IsReadTo Q position r) (hnew : start.IsNewRead)
    (hrepetition : 0 < start.repeaters → ∀ x p index predecessor, Q x p →
      p.binding.isException → Q p.binding.oid (.repetition index predecessor p)) :
  (∃ x v s, r.next position = (some v, s) ∧ start.IsAt Q position x v s)
    ∨ ∃ s, r.next position = (none, s) ∧ start.IsFinished Q s
  := by
  rcases Nat.lt_or_ge position start.size with hlt | hge
  · left
    obtain ⟨x, v, hnext, hat⟩ := h.isAt_of_lt hnew hlt
    exact ⟨x, v, r, hnext, hat⟩
  · by_cases hsingle : start.repeaters = 0 ∨ start.maxRepetitions = 0
    · right
      use r, next_of_hasNext (h.hasNext_single hnew hsingle hge)
      apply h.isFinished_single hnew hsingle hge
    · rw [not_or] at hsingle
      have hrepeaters := Nat.pos_of_ne_zero hsingle.1
      have hrows := Nat.pos_of_ne_zero hsingle.2
      have hsize : r.size ≤ position := by rw [h.size, max_eq_right hge]
      have hcases := hasNext_of_size_le hsize h.open' (h.continues.repeaters ▸ hrepeaters)
      rw [h.continues.nonRepeaters, h.continues.repeaters, h.continues.maxRepetitions] at hcases
      rcases hcases with ⟨k, hk, hclose, hnext⟩ | ⟨hopen, hnext⟩
      · right
        use (r.closeRow position).2, next_of_hasNext hnext
        apply h.isFinished_closeRow hnew (hrepetition hrepeaters) hrepeaters hrows hk hclose
      · have hgoes : ∀ k, position = start.nonRepeaters + (k + 1) * start.repeaters → r.Goes k := by
          intro k hk
          have hclose := hopen k hk
          rw [closeRow_row (by rw [hk, h.continues.nonRepeaters, h.continues.repeaters])] at hclose
          rw [← all_endOfMibView_eq_false_iff, ← Bool.not_eq_true]
          intro hall
          rw [if_pos hall] at hclose
          cases hclose
        rcases Nat.lt_or_ge position
            (start.nonRepeaters + start.maxRepetitions * start.repeaters) with hlt | hend
        · left
          rw [decide_eq_true hlt] at hnext
          apply h.isAt_of_size_le hnew (hrepetition hrepeaters) hrepeaters hge hlt hnext hgoes
        · right
          rw [decide_eq_false hend.not_gt] at hnext
          use r, next_of_hasNext hnext
          obtain ⟨last, hlast⟩ := Nat.exists_eq_succ_of_ne_zero hsingle.2
          have hk : position = start.nonRepeaters + (last + 1) * start.repeaters := by
            rw [hlast] at hend
            apply le_antisymm _ hend
            have hbound := h.bounded
            rwa [hlast, max_eq_right (hnew.toIsNew.size_le_of_row hrepeaters rfl)] at hbound
          apply h.isFinished_row hnew hrepeaters hrows hk (fun _ => hgoes last hk)
          intro hmore
          apply absurd hlast hmore.ne'

end Request

/-! ### Reading all variables -/

/-- A request that asks for something is carried out by a read. -/
theorem Agent.perform_create_read (a : Agent σ) (context : RequestContext) (transaction : Nat)
    {pdu : Pdu} (maxSize : Nat) (h : pdu.operation.isWrite = false) :
  a.perform (.create context transaction pdu maxSize)
    = a.read (.create context transaction pdu maxSize)
  := by
  rw [perform, Request.isWrite_create context transaction maxSize h, if_neg Bool.false_ne_true]

/-- A read goes through all variables, when what is to be known of them is known of each that is read
and of each that repeats an exception. -/
theorem Agent.ensures_read {a : Agent σ} {I : AgentState σ → Prop} {start : Request}
    {Q : Oid → Variable → Prop} (hnew : start.IsNewRead)
    (hread : ∀ x v, v.Asks start.operation x →
      Ensures I (a.readVariable start.context v) (Q x))
    (hrepetition : 0 < start.repeaters → ∀ x p index predecessor, Q x p →
      p.binding.isException → Q p.binding.oid (.repetition index predecessor p)) :
  Ensures I (a.read start) (start.IsFinished Q)
  := by
  have hrun : ∀ steps position r, start.IsReadTo Q position r →
      max start.size (start.nonRepeaters + start.maxRepetitions * start.repeaters)
        < position + steps →
      Ensures I (a.readFrom start.context steps position r) (start.IsFinished Q) := by
    intro steps
    induction steps with
    | zero =>
        intro position r h hsteps
        apply absurd h.bounded hsteps.not_ge
    | succ steps ih =>
        intro position r h hsteps
        rw [readFrom]
        rcases h.next_cases hnew hrepetition with ⟨x, v, s, hnext, hat⟩ | ⟨s, hnext, hfinished⟩
        · rw [hnext]
          dsimp only
          rcases hat.due with hasks | ⟨hcomplete, hQ⟩
          · rw [if_neg (by rw [hasks.unread]; exact Bool.false_ne_true)]
            apply (hread x v hasks).bind
            intro w hw
            apply ih _ _ (hat.further w hw)
            omega
          · rw [if_pos hcomplete]
            apply ih
            · rw [← Request.modify_present hat.present]
              apply hat.further v hQ
            · omega
        · rw [hnext]
          apply Ensures.pure hfinished
  apply hrun _ 0 start hnew.isReadTo
  rw [Request.cursorLimit]
  have hrequested := hnew.requested
  omega

/-- A read leaves registrations and locks alone, when reading a variable does. -/
theorem Agent.gives_read {a : Agent σ} {free : Prop} {P : σ → Prop} {store : Store}
    {locks : LockTable} {start : Request} {Q : Oid → Variable → Prop} (hnew : start.IsNewRead)
    (hread : ∀ x v, v.Asks start.operation x →
      Gives free P store locks (a.readVariable start.context v) (Q x) locks)
    (hrepetition : 0 < start.repeaters → ∀ x p index predecessor, Q x p →
      p.binding.isException → Q p.binding.oid (.repetition index predecessor p)) :
  Gives free P store locks (a.read start) (start.IsFinished Q) locks
  := by
  rw [AgentM.gives_iff_ensures]
  apply ensures_read hnew _ hrepetition
  intro x v hasks
  rw [← AgentM.gives_iff_ensures]
  apply hread x v hasks

end MibAgent
