import MibAgent.Proofs.SearchTurns

/-!
# Requests under an invariant

What holds of the state of an agent keeps holding while a request is carried out, be it a read or a
write, when nothing that the agent calls does away with it.
-/

namespace MibAgent

open AgentM (Keeps)

variable {σ : Type}

/-- Everything that the agent calls in order to answer a request keeps an invariant. -/
structure Agent.UpholdsAll (a : Agent σ) (I : AgentState σ → Prop) : Prop
    extends a.Upholds I, a.UpholdsSearch I where
  get : ∀ object context oid, Keeps I ((a.object object).get context oid)

namespace Agent

variable {a : Agent σ} {I : AgentState σ → Prop}

theorem UpholdsSearch.keeps_readNext (h : a.UpholdsSearch I) (context : RequestContext)
    (v : Variable) :
  Keeps I (a.readNext context v)
  := by
  have hall : a.SearchesAmong I context (fun _ => True) (fun _ => True) :=
    { h with sees := fun _ _ _ _ => trivial, answers := fun _ _ _ _ _ _ _ => trivial }
  apply (ensures_readNext hall (Q := fun _ => True) fun _ _ _ => trivial).keeps

namespace UpholdsAll

variable (h : a.UpholdsAll I)
include h

theorem keeps_readExact (context : RequestContext) (v : Variable) :
  Keeps I (a.readExact context v)
  := by
  apply Keeps.bind (h.access _)
  intro granted
  split
  · apply Keeps.bind (h.keeps_find _)
    intro found
    cases found with
    | none => apply Keeps.pure
    | some entry =>
        apply Keeps.bind (keeps_lockFor h.locks h.wait _ _)
        intro locked
        split
        · apply Keeps.bind (h.get _ _ _)
          intro result
          apply Keeps.bind (keeps_unlockFor h.locks _ _)
          intro _
          split
          · apply Keeps.pure
          · apply Keeps.pure
        · apply Keeps.pure
  · apply Keeps.pure

theorem keeps_readVariable (context : RequestContext) (v : Variable) :
  Keeps I (a.readVariable context v)
  := by
  rw [readVariable]
  split
  · apply h.toUpholdsSearch.keeps_readNext
  · apply h.keeps_readExact

theorem keeps_readFrom (context : RequestContext) (steps position : Nat) (r : Request) :
  Keeps I (a.readFrom context steps position r)
  := by
  induction steps generalizing position r with
  | zero => apply Keeps.pure
  | succ steps ih =>
      rw [readFrom]
      split
      · apply Keeps.pure
      · split
        · apply ih
        · apply Keeps.bind (h.keeps_readVariable _ _)
          intro v
          apply ih

/-- A request is carried out under every invariant that is kept by what the agent calls. -/
theorem keeps_perform (r : Request) :
  Keeps I (a.perform r)
  := by
  rw [perform]
  split
  · apply h.keeps_write
  · apply h.keeps_readFrom

end UpholdsAll

end Agent

end MibAgent
