import Mathlib.Data.List.Induction
import Mathlib.Order.Bounds.Basic
import MibAgent.Proofs.DrivenRows

/-!
# How many rows there can be

A row is begun only if the response would still fit with one more row of the size of the last. No
binding is encoded in fewer than seven octets, whatever it is answered. The size that was agreed
therefore bounds the number of variables, however many rows are asked for, and with it how often a
cursor can be moved on.
-/

namespace MibAgent

/-! ### The smallest encodings -/

namespace Size

theorem lengthField_pos (n : Nat) :
  1 ≤ lengthField n
  := by
  rw [lengthField]
  split
  · exact le_rfl
  · apply Nat.le_add_right

/-- A field has a tag and a length besides its content. -/
theorem add_two_le_field (n : Nat) :
  n + 2 ≤ field n
  := by
  have hlength := lengthField_pos n
  rw [field]
  omega

theorem base128_pos (n : Nat) :
  1 ≤ base128 n
  := by
  rw [base128, bitWidth]
  split
  · exact le_rfl
  · omega

theorem oid_pos (a : Oid) :
  1 ≤ oid a
  := by
  rw [oid]
  split
  · exact le_rfl
  · apply base128_pos
  · apply (base128_pos _).trans (Nat.le_add_right _ _)

/-- The sum of sizes that are all at least so big. -/
theorem mul_length_le_total {α : Type} {size : α → Nat} {least : Nat} (h : ∀ a, least ≤ size a)
    (l : List α) :
  least * l.length ≤ total (l.map size)
  := by
  induction l with
  | nil => exact le_rfl
  | cons a rest ih =>
      rw [List.map_cons, total, List.length_cons, Nat.mul_succ, Nat.add_comm]
      apply Nat.add_le_add (h a) ih

end Size

/-- No binding takes fewer octets than that of the root with no value. -/
theorem Binding.isLeast_encodedSize :
  IsLeast (Set.range encodedSize) 7
  := by
  constructor
  · use ⟨.root, .null⟩
    decide
  · rintro _ ⟨b, rfl⟩
    have hoid := (Nat.add_le_add_right (Size.oid_pos b.oid) 2).trans (Size.add_two_le_field _)
    have hvalue := (Nat.le_add_left 2 _).trans (Size.add_two_le_field b.value.contentSize)
    have hboth := Size.add_two_le_field (Size.field (Size.oid b.oid) + b.value.encodedSize)
    rw [Value.encodedSize] at hboth
    rw [encodedSize, Value.encodedSize]
    omega

theorem Binding.le_encodedSize (b : Binding) :
  7 ≤ b.encodedSize
  := isLeast_encodedSize.2 ⟨b, rfl⟩

namespace Request

variable {start r s : Request} {position : Nat}

theorem mul_size_le_encodedSize (r : Request) :
  7 * r.size ≤ r.encodedSize
  := by
  have htotal := Size.mul_length_le_total Binding.le_encodedSize r.bindings
  rw [length_bindings] at htotal
  have hbindings := Size.add_two_le_field (Size.total (r.bindings.map Binding.encodedSize))
  rw [encodedSize, Size.response, Size.bindings]
  apply (htotal.trans (Nat.le_of_add_right_le hbindings)).trans
  apply (Nat.le_add_left _ _).trans
  apply Nat.le_of_add_right_le (Size.add_two_le_field _)

theorem size_row {k : Nat} (h : r.nonRepeaters + (k + 1) * r.repeaters ≤ r.size) :
  (r.row k).size = r.repeaters
  := by
  rw [Nat.succ_mul] at h
  rw [row, Array.size_extract, Nat.succ_mul, ← size]
  omega

theorem mul_repeaters_le_row {k : Nat} (h : r.nonRepeaters + (k + 1) * r.repeaters ≤ r.size) :
  7 * r.repeaters ≤ Size.total ((r.row k).toList.map (·.binding.encodedSize))
  := by
  have htotal := Size.mul_length_le_total (fun v : Variable => v.binding.le_encodedSize)
    (r.row k).toList
  rwa [Array.length_toList, size_row h] at htotal

/-! ### Rows that are paid for -/

/-- The variables stand in so many rows, which leave room for a binding of each of their variables
if there is more than one. -/
def HasRoom (start r : Request) : Prop :=
  ∃ rows, r.size ≤ start.nonRepeaters + rows * start.repeaters
    ∧ (1 < rows → 7 * (start.nonRepeaters + rows * start.repeaters) ≤ start.maxSize)

theorem IsNew.hasRoom (h : start.IsNew) (hrepeaters : 0 < start.repeaters) :
  start.HasRoom start
  := by
  use 1, h.size_le_of_row (k := 0) hrepeaters rfl
  omega

theorem HasRoom.of_size_le (h : start.HasRoom r) (hsize : s.size ≤ r.size) :
  start.HasRoom s
  := by
  obtain ⟨rows, hrows, hroom⟩ := h
  exact ⟨rows, hsize.trans hrows, hroom⟩

/-- A cursor begins a row only if there is room for it. -/
theorem HasRoom.stepped (h : start.HasRoom r) (hr : start.IsInRows r) (hnew : start.IsNew)
    (hadmits : r.Admits position) {found : Option Variable} (hsteps : r.Steps position found s) :
  start.HasRoom s
  := by
  cases hsteps with
  | present _ | ended _ _ | closed _ _ _ _ => exact h
  | dropped hopen hsize hrepeaters k hk =>
      have hposition := hadmits.eq_size hopen hsize
      apply h.of_size_le
      rw [size_take (by omega)]
      omega
  | made hsize hopen hrepeaters hbound hfits hfound =>
      have hposition := hadmits.eq_size hopen hsize
      obtain ⟨p, -, heq⟩ := hr.materialize_eq hnew hadmits hsize hopen hbound
      have hgrown : (r.materialize position).size = position + 1 := by
        rw [heq, size_push, hposition]
      rw [hr.nonRepeaters, hr.maxRepetitions, hr.repeaters] at hbound
      obtain ⟨hpositive, hfirst⟩ := hnew.row_of_lt ((hr.size_ge.trans hsize).trans_lt hbound)
      have hge := hr.size_ge
      rw [HasRoom, hgrown]
      by_cases hbegins : ∃ k, position = start.nonRepeaters + (k + 1) * start.repeaters
      · -- a row begins, and one of the size of the last one would fit
        obtain ⟨k, hk⟩ := hbegins
        have hlast : r.nonRepeaters + (k + 1) * r.repeaters = r.size := by
          rw [hr.nonRepeaters, hr.repeaters, ← hk, hposition]
        have hroom := hfits k (hposition.trans hlast.symm)
        have hall := r.mul_size_le_encodedSize
        have hrow := mul_repeaters_le_row hlast.le
        rw [hr.maxSize] at hroom
        rw [hr.repeaters] at hrow
        use k + 1 + 1
        rw [Nat.succ_mul (k + 1)]
        omega
      · -- the row has begun before
        obtain ⟨rows, hrows, hroom⟩ := h
        refine ⟨rows, ?_, hroom⟩
        rw [← hposition] at hrows
        apply Nat.lt_of_le_of_ne hrows
        intro hfull
        cases rows with
        | zero => omega
        | succ k => apply hbegins ⟨k, hfull⟩

/-- Whatever happens to a request, its rows leave room. -/
theorem HasRoom.leads (h : start.HasRoom r) (hr : start.IsInRows r) (hnew : start.IsNew)
    (hleads : r.Leads s) :
  start.HasRoom s
  := by
  induction hleads with
  | refl => exact h
  | tail hleads hbecomes ih =>
      cases hbecomes with
      | treated htreated => apply ih.of_size_le htreated.size_eq.le
      | stepped hadmits hsteps => apply ih.stepped (hr.leads hnew hleads) hnew hadmits hsteps

/-- Behind the first row, all variables fit into the size that was agreed. -/
theorem HasRoom.mul_size_le (h : start.HasRoom r)
    (hsize : start.nonRepeaters + start.repeaters < r.size) :
  7 * r.size ≤ start.maxSize
  := by
  obtain ⟨rows, hrows, hroom⟩ := h
  rcases Nat.lt_or_ge 1 rows with hlt | hle
  · apply (Nat.mul_le_mul_left 7 hrows).trans (hroom hlt)
  · have hone : rows * start.repeaters ≤ 1 * start.repeaters := Nat.mul_le_mul_right _ hle
    omega

/-- The most variables that there can be. -/
def mostVariables (start : Request) : Nat :=
  max (start.nonRepeaters + start.repeaters) (start.maxSize / 7)

theorem HasRoom.size_le (h : start.HasRoom r) :
  r.size ≤ start.mostVariables
  := by
  rcases Nat.lt_or_ge (start.nonRepeaters + start.repeaters) r.size with hlt | hle
  · apply le_max_of_le_right
    rw [Nat.le_div_iff_mul_le (by decide), Nat.mul_comm]
    apply h.mul_size_le hlt
  · apply le_max_of_le_left hle

end Request

namespace Scenario

/-- Whether a move moves a cursor on. -/
def Move.advances (cursor : Nat) : Move → Bool
  | .next other _ => other = cursor
  | _ => false

theorem Move.advances_iff {cursor : Nat} {move : Move} :
  move.advances cursor = true ↔ ∃ how, move = .next cursor how
  := by
  cases move with
  | next other how =>
      rw [advances, decide_eq_true_iff]
      constructor
      · rintro rfl
        exact ⟨how, rfl⟩
      · rintro ⟨_, heq⟩
        cases heq
        rfl
  | _ => simp [advances]

namespace HandDriven

variable {data : OrderedMap Oid Value} {start : Request} {h : HandDriven}

theorem after_concat (moves : List Move) (move : Move) :
  h.after data (moves ++ [move]) = ((h.after data moves).step data move).2
  := by rw [after, after, List.foldl_concat]

theorem IsReached.leads_step (hreached : IsReached start h) (move : Move) :
  h.request.Leads (h.step data move).2.request
  := by
  have hself : IsReached h.request h := ⟨.refl, hreached.admits⟩
  apply (hself.step move).leads

theorem position_step {cursor : Nat} {move : Move} (hmove : ¬ move.advances cursor = true) :
  (h.step data move).2.position cursor = h.position cursor
  := by
  cases move with
  | next other how =>
      have hne : cursor ≠ other := by
        rintro rfl
        apply hmove (Move.advances_iff.mpr ⟨how, rfl⟩)
      rcases step_next data h other how with ⟨s, -, heq⟩ | ⟨v, s, -, heq⟩
      · rw [heq, position_insert, if_neg hne]
      · rw [heq, position_insert, if_neg hne]
  | _ => rfl

/-- A cursor has been moved on so many times. Each time it has come to a variable, unless there will
be none where it is. -/
structure HasAdvanced (start : Request) (h : HandDriven) (cursor times : Nat) : Prop where
  le_most : h.position cursor ≤ start.mostVariables
  times_le : times ≤ h.position cursor ∨ h.request.IsOver (h.position cursor)

/-- A cursor that is moved on once more comes to a variable, or else there will be none where it
is. -/
theorem HasAdvanced.next {cursor times : Nat} (hadvanced : HasAdvanced start h cursor times)
    (hreached : IsReached start h) (hnew : start.IsNew) (hrows : start.IsInRows start)
    (hrepeaters : 0 < start.repeaters) (how : Treatment) :
  HasAdvanced start (h.step data (.next cursor how)).2 cursor (times + 1)
    ∧ ((h.step data (.next cursor how)).1 = .reached none (h.position cursor)
      ∨ times < start.mostVariables)
  := by
  have hadmits := hreached.admits cursor
  have hr := hrows.leads hnew hreached.leads
  have hroom := (hnew.hasRoom hrepeaters).leads hrows hnew hreached.leads
  rcases step_next data h cursor how with ⟨s, hsteps, heq⟩ | ⟨v, s, hsteps, heq⟩
  · rw [heq]
    refine ⟨⟨?_, ?_⟩, .inl rfl⟩
    · rw [position_insert, if_pos rfl]
      apply hadvanced.le_most
    · right
      rw [position_insert, if_pos rfl]
      apply (hr.over_of_none hnew hadmits hsteps).1
  · have htimes : times ≤ h.position cursor := by
      apply hadvanced.times_le.resolve_right
      intro hover
      cases hover.eq_none hsteps
    have hposition : h.position cursor < s.size := (Array.getElem?_eq_some_iff.mp hsteps.getElem?).1
    have hmost := (hroom.stepped hr hnew hadmits hsteps).size_le
    rw [heq]
    refine ⟨⟨?_, ?_⟩, .inr (by omega)⟩
    · rw [position_insert, if_pos rfl]
      apply Nat.le_trans hposition hmost
    · left
      rw [position_insert, if_pos rfl]
      apply Nat.succ_le_succ htimes

theorem hasAdvanced_after (hnew : start.IsNew) (hrows : start.IsInRows start)
    (hrepeaters : 0 < start.repeaters) (data : OrderedMap Oid Value) (moves : List Move)
    (cursor : Nat) :
  HasAdvanced start ((ofRequest start).after data moves) cursor
    (moves.countP (·.advances cursor))
  := by
  induction moves using List.reverseRecOn with
  | nil => exact ⟨Nat.zero_le _, .inl le_rfl⟩
  | append_singleton moves move ih =>
      have hreached := (isReached_ofRequest start).after data moves
      rw [after_concat, List.countP_append, List.countP_singleton]
      by_cases hmove : move.advances cursor = true
      · obtain ⟨how, rfl⟩ := Move.advances_iff.mp hmove
        rw [if_pos hmove]
        apply (ih.next hreached hnew hrows hrepeaters how).1
      · rw [if_neg hmove, Nat.add_zero]
        constructor
        · rw [position_step hmove]
          apply ih.le_most
        · rw [position_step hmove]
          apply ih.times_le.imp_right
          intro hover
          apply hover.leads (hrows.leads hnew hreached.leads) hnew (hreached.leads_step move)

/-- The variables of a bulk read fit into the size that was agreed if there are more than those of
the first row, no matter how many rows are asked for and what the variables are answered. No cursor
comes to more variables than that. -/
theorem size_within_budget (context : RequestContext) (transaction : Nat) (pdu : Pdu)
    (maxSize : Nat) (data : OrderedMap Oid Value) (moves : List Move)
    (hrepeaters : 0 < (Request.create context transaction pdu maxSize).repeaters) :
  let start := Request.create context transaction pdu maxSize
  let driven := (ofRequest start).after data moves
  let first := start.nonRepeaters + start.repeaters
  IsLeast (Set.range Binding.encodedSize) 7
    ∧ (first < driven.request.size → 7 * (driven.request.size - start.repeaters) ≤ maxSize)
    ∧ driven.request.size ≤ max first (maxSize / 7)
    ∧ ∀ cursor, driven.position cursor ≤ max first (maxSize / 7)
      ∧ ∀ how, max first (maxSize / 7) ≤ moves.countP (·.advances cursor) →
        (driven.step data (.next cursor how)).1 = .reached none (driven.position cursor)
  := by
  intro start driven first
  have hnew := Request.isNew_create context transaction pdu maxSize
  have hrows := Request.isInRows_create context transaction pdu maxSize
  have hreached : IsReached start driven := (isReached_ofRequest start).after data moves
  have hroom := (hnew.hasRoom hrepeaters).leads hrows hnew hreached.leads
  refine ⟨Binding.isLeast_encodedSize, ?_, hroom.size_le, ?_⟩
  · intro hsize
    have hfit : 7 * driven.request.size ≤ maxSize := hroom.mul_size_le hsize
    apply (Nat.mul_le_mul_left 7 (Nat.sub_le _ _)).trans hfit
  · intro cursor
    have hadvanced := hasAdvanced_after hnew hrows hrepeaters data moves cursor
    refine ⟨hadvanced.le_most, ?_⟩
    intro how htimes
    apply (hadvanced.next hreached hnew hrows hrepeaters how).2.resolve_right
    apply Nat.not_lt_of_le htimes

/-- Thirty octets never carry more than four variables, though as many rows were asked for as can be
written. -/
theorem size_small_budget :
  let start := Request.create (.ofVersion .v2c) 0
    ⟨.getBulk, 7, [.ask ⟨[1, 3]⟩], 0, 2147483647⟩ 30
  0 < start.repeaters
    ∧ ((ofRequest start).after .empty [.walk (.answerValue (.integer 1))]).request.size ≤ 4
  := ⟨by decide, (size_within_budget _ _ _ _ _ _ (by decide)).2.2.1⟩

end HandDriven

end Scenario

end MibAgent
