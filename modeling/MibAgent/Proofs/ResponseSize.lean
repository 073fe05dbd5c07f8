import Mathlib.Control.Monad.Basic
import MibAgent.Proofs.Keepers

/-!
# The size of a response

The answers to a request are measured before they are sent: what does not fit is cut off at the
end of a bulk read, and otherwise the response is empty and says that it would have been too big.
A report of a failure is not measured. It repeats the bindings as they were received, and is as
long as they are.
-/

namespace MibAgent

namespace Response

/-- The response is empty and says that it would have been too big. -/
def SaysTooBig (response : Response) : Prop :=
  response.status = .tooBig ∧ response.bindings = []

/-- The response keeps to a size that was agreed, if need be by saying that it would have been too
big. -/
def KeepsTo (response : Response) (maxSize : Nat) : Prop :=
  response.SaysTooBig ∨ response.encodedSize ≤ maxSize

end Response

namespace Request

variable (r : Request)

/-- The first variable, in the first version of the protocol, whose answer that version cannot
carry. -/
def unspoken? : Option Nat :=
  if r.context.version.isLegacy then r.firstException? else none

/-- The failure that is reported: its status and the position of the binding at fault. -/
def failure? : Option (Status × Nat) :=
  match r.unspoken? with
  | some position => some (.noSuchName, r.requestedPosition position + 1)
  | none =>
    r.firstError?.map fun v =>
      (if r.context.version.isLegacy then v.status.toLegacy else v.status, r.errorIndex)

theorem response_eq :
  r.response
    = match r.unspoken? with
      | some position => r.failureResponse .noSuchName (r.requestedPosition position + 1)
      | none => r.plainResponse
  := by
  rw [response, unspoken?]
  split
  · rfl
  · rfl

variable {r}

/-- A failure is reported with the bindings as they were received. -/
theorem response_of_failure {status : Status} {index : Nat}
    (h : r.failure? = some (status, index)) :
  r.response = r.failureResponse status index
  := by
  rw [failure?] at h
  rw [response_eq]
  cases hunspoken : r.unspoken? with
  | some position =>
      rw [hunspoken] at h
      cases h
      rfl
  | none =>
      rw [hunspoken] at h
      obtain ⟨v, hv, hfailure⟩ := Option.map_eq_some_iff.mp h
      cases hfailure
      dsimp only
      rw [plainResponse, hv]

theorem unspoken?_eq_none_iff :
  r.unspoken? = none
    ↔ (r.context.version.isLegacy → ∀ v ∈ r.vars, v.binding.isException = false)
  := by
  rw [unspoken?]
  split
  · rename_i hlegacy
    rw [firstException?, Array.findIdx?_eq_none_iff]
    simp [hlegacy]
  · rename_i hlegacy
    simp [hlegacy]

/-- No failure is reported when no variable has failed, and none was answered with an exception in
the first version of the protocol. -/
theorem failure?_eq_none_iff :
  r.failure? = none
    ↔ (∀ v ∈ r.vars, v.hasError = false)
      ∧ (r.context.version.isLegacy → ∀ v ∈ r.vars, v.binding.isException = false)
  := by
  rw [failure?, ← unspoken?_eq_none_iff]
  cases r.unspoken? with
  | some position => simp
  | none => simp [firstError?]

/-- The answers are sent if those that were not cut off fit. -/
theorem response_of_success (h : r.failure? = none) :
  r.response
    = if r.fits r.fittingBindings then ⟨r.requestId, .noError, 0, r.fittingBindings⟩
      else ⟨r.requestId, .tooBig, 0, []⟩
  := by
  rw [failure?] at h
  rw [response_eq]
  cases hunspoken : r.unspoken? with
  | some position =>
      rw [hunspoken] at h
      cases h
  | none =>
      rw [hunspoken] at h
      dsimp only
      rw [plainResponse, Option.map_eq_none_iff.mp h]

/-- The size that is measured is that of the response. -/
theorem fits_iff {bindings : List Binding} :
  r.fits bindings
    ↔ Response.encodedSize ⟨r.requestId, .noError, 0, bindings⟩ ≤ r.maxSize
  := decide_eq_true_iff

theorem response_keepsTo_of_success (h : r.failure? = none) :
  r.response.KeepsTo r.maxSize
  := by
  rw [response_of_success h]
  split
  · rename_i hfits
    right
    apply fits_iff.mp hfits
  · left
    exact ⟨rfl, rfl⟩

variable (r)

/-- The response to a request keeps to the size that was agreed, except where a failure is
reported and the bindings that were received, with its status and position, are too long. -/
theorem response_keepsTo_iff :
  r.response.KeepsTo r.maxSize
    ↔ ∀ status index, r.failure? = some (status, index) →
        (r.failureResponse status index).KeepsTo r.maxSize
  := by
  cases hfailure : r.failure? with
  | none =>
      constructor
      · nofun
      · intro _
        apply response_keepsTo_of_success hfailure
  | some failure =>
      obtain ⟨status, index⟩ := failure
      rw [response_of_failure hfailure]
      constructor
      · rintro hkeeps _ _ ⟨⟩
        apply hkeeps
      · intro hkeeps
        apply hkeeps status index rfl

end Request

/-- A write to an OID that no object serves is reported with the binding it came with, in more
octets than were agreed. -/
theorem Agent.unserved_exceeds :
  let a := Keepers.agent {}
  let pdu : Pdu := { operation := .set, requestId := 1, bindings := [⟨⟨[1, 1, 1]⟩, .integer 5⟩] }
  let r := ((a.perform (.create Keepers.requester 1 pdu 20)).run Keepers.start).1
  ((a.process Keepers.requester pdu 20).run Keepers.start).1 = .ok r.response
    ∧ r.response = ⟨1, .notWritable, 1, pdu.bindings⟩
    ∧ ¬ r.response.KeepsTo r.maxSize
  := by
  intro a pdu r
  have hresponse : r.response = ⟨1, .notWritable, 1, pdu.bindings⟩ := by decide +kernel
  have hmaxSize : r.maxSize = 20 := by decide +kernel
  refine ⟨by decide +kernel, hresponse, ?_⟩
  rw [hresponse, hmaxSize]
  rintro (⟨htooBig, -⟩ | hsize)
  · cases htooBig
  · revert hsize
    decide +kernel

end MibAgent
