import MibAgent.Proofs.ResponseSize
import Mathlib.Data.Nat.Log

/-!
# The longest prefix that fits

Each binding lengthens a response by its own size at least, whatever this does to the length fields
around it. So of the prefixes of the answers, those up to some length fit. When nothing has failed,
the response to a bulk read holds the longest one that fits, as long as no variable is left out that
is read once. Other responses hold all answers or none.
-/

namespace MibAgent

/-! ### Sizes -/

namespace Size

theorem bitWidth_mono :
  Monotone bitWidth
  := by
  intro m n h
  rw [bitWidth, bitWidth]
  split_ifs
  · rfl
  · apply Nat.zero_le
  · omega
  · rw [Nat.log2_eq_log_two, Nat.log2_eq_log_two]
    apply Nat.add_le_add_right (Nat.log_mono_right h)

theorem lengthField_mono :
  Monotone lengthField
  := by
  intro m n h
  have hwidth := bitWidth_mono h
  rw [lengthField, lengthField]
  split_ifs
  · rfl
  · apply Nat.le_add_right
  · omega
  · omega

/-- With more content, a field becomes longer by as much at least. -/
theorem field_add_le {m n k : Nat} (h : m + k ≤ n) :
  field m + k ≤ field n
  := by
  have hlength : lengthField m ≤ lengthField n := lengthField_mono (by omega)
  rw [field, field]
  omega

theorem total_append (ns ms : List Nat) :
  total (ns ++ ms) = total ns + total ms
  := by
  induction ns with
  | nil => rw [List.nil_append, total, Nat.zero_add]
  | cons n rest ih => rw [List.cons_append, total, total, ih, Nat.add_assoc]

/-- A response becomes longer by the bindings that are added at least. -/
theorem response_append_le (requestId status index : Int) (bs cs : List Binding) :
  response requestId status index bs + total (cs.map Binding.encodedSize)
    ≤ response requestId status index (bs ++ cs)
  := by
  have hbindings : bindings bs + total (cs.map Binding.encodedSize) ≤ bindings (bs ++ cs) := by
    apply field_add_le
    rw [List.map_append, total_append]
  apply field_add_le
  rw [Nat.add_assoc]
  apply Nat.add_le_add_left hbindings

end Size

/-! ### What fits -/

namespace Request

variable {r : Request}

/-- What fits still fits without the last bindings. -/
theorem fits_take {bindings : List Binding} {m n : Nat} (h : m ≤ n)
    (hfits : r.fits (bindings.take n)) :
  r.fits (bindings.take m)
  := by
  rw [fits_iff] at hfits ⊢
  obtain ⟨rest, hrest⟩ := List.take_prefix_take_left (l := bindings) h
  rw [← hrest] at hfits
  have hlonger := Size.response_append_le r.requestId.toInt 0 0 (bindings.take m) rest
  apply (Nat.le_add_right _ _).trans (hlonger.trans hfits)

/-- Bindings are dropped as long as what is left does not fit, and as there are more than a number
of them. -/
theorem exists_dropToFit (r : Request) (least : Nat) (bindings : List Binding) :
  ∃ n, min least bindings.length ≤ n ∧ n ≤ bindings.length
    ∧ r.dropToFit least bindings = bindings.take n
    ∧ (∀ k, n < k → k ≤ bindings.length → ¬ r.fits (bindings.take k))
    ∧ (r.fits (bindings.take n) ∨ n ≤ least)
  := by
  fun_induction dropToFit r least bindings with
  | case1 bindings hdrop ih =>
      obtain ⟨n, hleast, hn, hdropped, htoo, hend⟩ := ih
      rw [List.length_dropLast] at hleast hn htoo
      have htake : ∀ k ≤ bindings.length - 1, bindings.dropLast.take k = bindings.take k := by
        intro k hk
        rw [List.dropLast_eq_take, List.take_take, min_eq_left hk]
      rw [htake n hn] at hdropped hend
      refine ⟨n, by omega, by omega, hdropped, ?_, hend⟩
      intro k hk hlength
      rcases hlength.lt_or_eq with hlt | rfl
      · rw [← htake k (by omega)]
        apply htoo k hk (by omega)
      · -- all bindings were tried before the last one was dropped
        rw [List.take_length]
        simpa using hdrop.2
  | case2 bindings hkeep =>
      use bindings.length
      rw [List.take_length]
      refine ⟨min_le_right _ _, le_rfl, rfl, ?_, ?_⟩
      · intro k hk hlength
        omega
      · cases hfits : r.fits bindings with
        | true => apply Or.inl rfl
        | false =>
            right
            rw [← not_lt]
            intro hlt
            apply hkeep ⟨hlt, by rw [hfits]; rfl⟩

/-- If a prefix of the answers fits and no longer one does, then those up to its length fit. -/
theorem fits_take_iff {bindings : List Binding} {n : Nat} (hfits : r.fits (bindings.take n))
    (htoo : ∀ k, n < k → k ≤ bindings.length → ¬ r.fits (bindings.take k)) :
  ∀ k ≤ bindings.length, r.fits (bindings.take k) ↔ k ≤ n
  := by
  intro k hlength
  constructor
  · intro hk
    rw [← not_lt]
    intro hlt
    apply htoo k hlt hlength hk
  · intro hk
    apply fits_take hk hfits

/-- When no variable has failed, and none was answered with an exception in the first version of the
protocol, the response to a bulk read holds the longest prefix of the answers that fits and has
those of all variables that are read once. The response says that it would have been too big when
there is none. Other responses hold all answers if these fit, and else say that too. -/
theorem response_longest (herror : ∀ v ∈ r.vars, v.hasError = false)
    (hexception : r.context.version.isLegacy → ∀ v ∈ r.vars, v.binding.isException = false) :
  let length := r.bindings.length
  let carrying bindings : Response := ⟨r.requestId, .noError, 0, bindings⟩
  let tooBig : Response := ⟨r.requestId, .tooBig, 0, []⟩
  let Fits bindings := (carrying bindings).encodedSize ≤ r.maxSize
  (r.operation ≠ .getBulk →
      r.response = if Fits r.bindings then carrying r.bindings else tooBig)
    ∧ (r.operation = .getBulk →
      let least := min r.nonRepeaters length
      (r.response = tooBig ↔ ∀ n, least ≤ n → n ≤ length → ¬ Fits (r.bindings.take n))
        ∧ (r.response ≠ tooBig → ∃ n, least ≤ n ∧ n ≤ length
          ∧ r.response = carrying (r.bindings.take n)
          ∧ ∀ k ≤ length, (Fits (r.bindings.take k) ↔ k ≤ n)))
  := by
  intro length carrying tooBig Fits
  have hFits : ∀ bindings, Fits bindings ↔ r.fits bindings := fun _ => fits_iff.symm
  have hresponse := response_of_success (failure?_eq_none_iff.mpr ⟨herror, hexception⟩)
  simp only [hFits]
  constructor
  · intro hother
    rw [fittingBindings, if_neg hother] at hresponse
    apply hresponse
  · intro hbulk
    obtain ⟨n, hleast, hn, hdropped, htoo, hend⟩ := r.exists_dropToFit r.nonRepeaters r.bindings
    rw [fittingBindings, if_pos hbulk, hdropped] at hresponse
    by_cases hfits : r.fits (r.bindings.take n)
    · rw [if_pos hfits] at hresponse
      constructor
      · rw [hresponse]
        refine iff_of_false ?_ fun hnone => hnone n hleast hn hfits
        intro heq
        cases congrArg Response.status heq
      · intro _
        exact ⟨n, hleast, hn, hresponse, fits_take_iff hfits htoo⟩
    · rw [if_neg hfits] at hresponse
      have hnone : ∀ k, min r.nonRepeaters length ≤ k → k ≤ length →
          ¬ r.fits (r.bindings.take k) := by
        intro k hk hlength
        have hle : n ≤ k := (le_min (hend.resolve_left hfits) hn).trans hk
        rcases hle.lt_or_eq with hlt | rfl
        · apply htoo k hlt hlength
        · apply hfits
      exact ⟨iff_of_true hresponse hnone, fun hne => absurd hresponse hne⟩

/-- A bulk read of three names, of which one is read once, where nothing is served. Of the answers,
two fit into thirty octets, and none into nineteen. -/
theorem unserved_longest :
  let pdu : Pdu :=
    { operation := .getBulk, requestId := 1, nonRepeaters := 1, maxRepetitions := 1
      bindings := [.ask ⟨[1, 1]⟩, .ask ⟨[1, 2]⟩, .ask ⟨[1, 3]⟩] }
  let answered maxSize :=
    (((Keepers.agent {}).perform (create Keepers.requester 1 pdu maxSize)).run Keepers.start).1
  (answered 30).response = ⟨1, .noError, 0, (answered 30).bindings.take 2⟩
    ∧ (answered 19).response = ⟨1, .tooBig, 0, []⟩
  := by
  intro pdu answered
  have hthirty := response_longest (r := answered 30) (by decide +kernel) (by decide +kernel)
  have hnineteen := response_longest (r := answered 19) (by decide +kernel) (by decide +kernel)
  constructor
  · obtain ⟨-, hlongest⟩ := hthirty.2 (by decide +kernel)
    obtain ⟨n, -, -, hresponse, hfits⟩ := hlongest (by decide +kernel)
    have htwo : 2 ≤ n := (hfits 2 (by decide +kernel)).mp (by decide +kernel)
    have hthree : ¬ 3 ≤ n := mt (hfits 3 (by decide +kernel)).mpr (by decide +kernel)
    have hn : n = 2 := by omega
    have hrequestId : (answered 30).requestId = 1 := by decide +kernel
    rw [hn, hrequestId] at hresponse
    apply hresponse
  · have hrequestId : (answered 19).requestId = 1 := by decide +kernel
    obtain ⟨htooBig, -⟩ := hnineteen.2 (by decide +kernel)
    have hnone : ∀ n ≤ (answered 19).bindings.length,
        min (answered 19).nonRepeaters (answered 19).bindings.length ≤ n →
        ¬ Response.encodedSize ⟨1, .noError, 0, (answered 19).bindings.take n⟩
          ≤ (answered 19).maxSize := by
      decide +kernel
    rw [hrequestId] at htooBig
    apply htooBig.mpr
    exact fun n hleast hlength => hnone n hlength hleast

end Request

end MibAgent
