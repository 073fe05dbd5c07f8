import MibAgent.Proofs.Keepers
import MibAgent.Proofs.Preparing

/-!
# The phases of a write

After its variables are prepared, a write has their objects commit and undo, and in the end
clean up. What is asked of whom, and in which order, is told by the stories of the variables:
how each of them fared when it was prepared, and what came of committing and undoing it.
-/

namespace MibAgent

variable {σ : Type}

/-! ### Stories -/

/-- A prepared variable, and the result of committing it, if its object was asked to. -/
structure Settlement extends Preparation where
  commit : Option WriteResult
deriving DecidableEq

/-- What a variable goes through in a write: how it was prepared and committed, and the result of
undoing it, if its object was asked to. -/
structure Story extends Settlement where
  undo : Option WriteResult
deriving DecidableEq

/-- The variable when the work on it is over. -/
def Variable.released (v : Variable) : Variable := { v with stage := .untouched }

/-- The variable when its object is not asked to commit. -/
def Preparation.unsettled (p : Preparation) : Settlement := { p with commit := none }

/-- The variable when its object is not asked to undo. -/
def Settlement.kept (p : Settlement) : Story := { p with undo := none }

namespace Settlement

/-- Whether the object committed. -/
def isCommitted (p : Settlement) : Bool := p.commit == some .ok

/-- Whether the variable failed, be it when it was prepared or when it was committed. -/
def hasFailed (p : Settlement) : Bool := p.fate.isFailure || p.commit.any (!·.isOk)

/-- The call made to commit. -/
def commitCall? (p : Settlement) : Option Call :=
  match p.fate with
  | .applied target _ => p.commit.map (.commit target.object p.asked.binding)
  | _ => none

/-- The variable after the commits. -/
def committed (p : Settlement) (context : RequestContext) : Variable :=
  let v := p.prepared context
  match p.commit with
  | none => v
  | some result => if result.isOk then v.complete else v.fail .commitFailed

end Settlement

namespace Story

/-- The call made to undo. -/
def undoCall? (story : Story) : Option Call :=
  match story.fate with
  | .applied target stored => story.undo.map (.undo target.object story.asked.binding stored)
  | _ => none

/-- The call made to clean up. -/
def cleanupCall? (story : Story) : Option Call :=
  if story.fate.isValid then
    story.fate.receiver?.map fun target => .cleanup target.object story.asked.binding
  else none

/-- The calls of a write, phase by phase. -/
def calls (stories : List Story) : List Call :=
  stories.flatMap (·.toPreparation.calls)
    ++ stories.filterMap (·.commitCall?)
    ++ (stories.filterMap (·.undoCall?)).reverse
    ++ stories.filterMap (·.cleanupCall?)

/-- The variable after the undoing. -/
def undone (story : Story) (context : RequestContext) : Variable :=
  let v := story.committed context
  match story.undo with
  | none => v
  | some result =>
    if result.isOk then { v with stage := .validated }
    else { v with stage := .validated }.fail .undoFailed

/-- The variable in the end. -/
def released (story : Story) (context : RequestContext) : Variable :=
  (story.undone context).released

end Story

/-- A request after a write of its variables. -/
def Request.written (r : Request) (stories : List Story) : Request :=
  { r with vars := (stories.map (·.released r.context)).toArray }

/-! ### The rules of the phases -/

/-- Objects are asked in order up to the first that fails: each gives a result, except for those
after one that failed. -/
def UpToFailure : List (Option WriteResult) → Prop
  | [] => True
  | none :: _ => False
  | some result :: rest => if result.isOk then UpToFailure rest else ∀ r ∈ rest, r = none

/-- If all objects took their values on, they are asked to commit up to the first that fails, and
otherwise none is asked. -/
structure Settled (ps : List Settlement) : Prop where
  asked : (∀ p ∈ ps, p.fate.isApplied) → UpToFailure (ps.map (·.commit))
  unasked : ¬(∀ p ∈ ps, p.fate.isApplied) → ∀ p ∈ ps, p.commit = none

/-- What makes stories the stories of a write that begins in a state. -/
structure Agent.Writes (a : Agent σ) (context : RequestContext) (s : AgentState σ)
    (stories : List Story) : Prop where
  /-- The variables meet their fates one after the other. -/
  prepared : ∃ t, a.MeetAll context true s (stories.map (·.toPreparation)) t
  /-- A variable is put to an object if it is admitted to it, whatever happened before. -/
  validated : ∀ earlier story later, stories = earlier ++ story :: later →
    ∃ t, a.MeetAll context true s (earlier.map (·.toPreparation)) t
      ∧ ∀ target, (story.fate.receiver? = some target
        ↔ ∃ writable u, a.Admits context story.asked t target writable u)
  /-- The object is asked to take the value on if it finds it valid and no variable failed
  before. -/
  offered : ∀ earlier story later, stories = earlier ++ story :: later →
    (story.fate.isOffered
      ↔ story.fate.isValid ∧ ∀ other ∈ earlier, other.fate.isFailure = false)
  /-- The objects are asked to commit as far as they have to. -/
  settled : Settled (stories.map (·.toSettlement))
  /-- After a failure, the objects that took on their values are asked to undo, and no others
  ever are. -/
  undone : ∀ story ∈ stories,
    (story.undo.isSome ↔ story.fate.isApplied ∧ ∃ failed ∈ stories, failed.hasFailed)

/-! ### Committing -/

namespace Preparation

theorem commitCall?_unsettled (p : Preparation) :
  p.unsettled.commitCall? = none
  := by
  simp only [Settlement.commitCall?, unsettled, Option.map_none]
  split
  · rfl
  · rfl

theorem commitCalls_unsettled (ps : List Preparation) :
  (ps.map (·.unsettled)).filterMap (·.commitCall?) = []
  := by
  rw [List.filterMap_map, List.filterMap_eq_nil_iff]
  intro p _
  apply commitCall?_unsettled

theorem map_toPreparation_unsettled (ps : List Preparation) :
  (ps.map (·.unsettled)).map (·.toPreparation) = ps
  := by
  rw [List.map_map]
  apply List.map_id

theorem map_committed_unsettled (ps : List Preparation) (context : RequestContext) :
  (ps.map (·.unsettled)).map (·.committed context) = ps.map (·.prepared context)
  := by
  rw [List.map_map]
  rfl

end Preparation

namespace Agent

section

variable {a : Agent σ} {context : RequestContext}
variable {v : Variable} {target : Entry} {w : Writable σ} {s s₁ t : AgentState σ}
variable (htarget : v.target = some target)
variable (hwritable : (a.object target.object).writable = some w)
include htarget hwritable

theorem commitAll_committed {rest rest' : List Variable} {committed : Bool} {calls : List Call}
    (hcommit : (w.commit context v.binding).run s = (.ok, s₁))
    (hrest : Runs (a.commitAll context rest) (a.recorded.commitAll context rest) s₁
      (committed, rest') t calls) :
  Runs (a.commitAll context (v :: rest)) (a.recorded.commitAll context (v :: rest)) s
    (committed, v.complete :: rest') t (.commit target.object v.binding .ok :: calls)
  := by
  simp only [commitAll]
  rw [writer?_eq a htarget, recorded_writer? a htarget, hwritable]
  apply Runs.cons (Writable.commit_runs target.object hcommit)
  apply Runs.bind_pure hrest
  · rfl
  · rfl

theorem commitAll_uncommitted (rest : List Variable) {result : WriteResult}
    (hcommit : (w.commit context v.binding).run s = (result, t)) (hresult : result ≠ .ok) :
  Runs (a.commitAll context (v :: rest)) (a.recorded.commitAll context (v :: rest)) s
    (false, v.fail .commitFailed :: rest) t [.commit target.object v.binding result]
  := by
  simp only [commitAll]
  rw [writer?_eq a htarget, recorded_writer? a htarget, hwritable]
  apply Runs.cons (Writable.commit_runs target.object hcommit)
  rw [WriteResult.isOk_eq_false hresult]
  apply Runs.pure

end

variable (a : Agent σ) (context : RequestContext)

/-- When all objects took their values on, they commit up to the first that fails. -/
theorem commitAll_runs (ps : List Preparation) (happlied : ∀ p ∈ ps, p.fate.isApplied)
    (hserves : ∀ p ∈ ps, a.Serves p) (s : AgentState σ) :
  ∃ qs : List Settlement, ∃ t, qs.map (·.toPreparation) = ps
    ∧ UpToFailure (qs.map (·.commit))
    ∧ Runs (a.commitAll context (ps.map (·.prepared context)))
        (a.recorded.commitAll context (ps.map (·.prepared context))) s
        (qs.all (·.isCommitted), qs.map (·.committed context)) t (qs.filterMap (·.commitCall?))
  := by
  induction ps generalizing s with
  | nil =>
      use [], s, rfl, trivial
      apply Runs.pure
  | cons p rest ih =>
      obtain ⟨target, stored, hfate⟩ := Fate.eq_applied (happlied p List.mem_cons_self)
      obtain ⟨v, fate⟩ := p
      dsimp only at hfate
      subst hfate
      obtain ⟨w, hwritable⟩ := hserves _ List.mem_cons_self target rfl
      rcases hcommit : (w.commit context v.binding).run s with ⟨result, s₁⟩
      by_cases hresult : result = .ok
      · subst hresult
        obtain ⟨qs, t, hqs, hupto, hruns⟩ := ih
          (fun q hq => happlied q (List.mem_cons_of_mem _ hq))
          (fun q hq => hserves q (List.mem_cons_of_mem _ hq)) s₁
        use ⟨⟨v, .applied target stored⟩, some .ok⟩ :: qs, t
        refine ⟨by rw [List.map_cons, hqs], hupto, ?_⟩
        apply commitAll_committed
          (v := Preparation.prepared ⟨v, .applied target stored⟩ context)
          rfl hwritable hcommit hruns
      · have hok := WriteResult.isOk_eq_false hresult
        use ⟨⟨v, .applied target stored⟩, some result⟩ :: rest.map (·.unsettled), s₁
        refine ⟨?_, ?_, ?_⟩
        · rw [List.map_cons, Preparation.map_toPreparation_unsettled]
        · simp [UpToFailure, hok, Preparation.unsettled]
        · have hcommitted : Settlement.isCommitted
              ⟨⟨v, .applied target stored⟩, some result⟩ = false := by
            simpa [Settlement.isCommitted] using hresult
          simp only [List.all_cons, List.map_cons, List.filterMap_cons, hcommitted,
            Preparation.map_committed_unsettled, Preparation.commitCalls_unsettled]
          simp only [Settlement.committed, hok]
          apply commitAll_uncommitted
            (v := Preparation.prepared ⟨v, .applied target stored⟩ context)
            rfl hwritable _ hcommit hresult

/-- Prepared variables are committed when none has failed. -/
theorem settle_runs {s₀ s : AgentState σ} {ps : List Preparation}
    (hps : a.MeetAll context true s₀ ps s) :
  ∃ qs : List Settlement, ∃ t, qs.map (·.toPreparation) = ps ∧ Settled qs
    ∧ Runs (a.settle context (ps.all (!·.fate.isFailure)) (ps.map (·.prepared context)))
        (a.recorded.settle context (ps.all (!·.fate.isFailure)) (ps.map (·.prepared context))) s
        (qs.all (·.isCommitted), qs.map (·.committed context)) t (qs.filterMap (·.commitCall?))
  := by
  cases hall : ps.all (!·.fate.isFailure) with
  | true =>
      have happlied : ∀ p ∈ ps, p.fate.isApplied := by
        apply hps.isApplied
        simpa using hall
      obtain ⟨qs, t, rfl, hupto, hruns⟩ :=
        commitAll_runs a context ps happlied hps.serves s
      use qs, t, rfl
      constructor
      · constructor
        · intro _
          apply hupto
        · intro hunapplied
          apply absurd _ hunapplied
          simpa using happlied
      · apply hruns
  | false =>
      obtain ⟨p, hp, hfailed⟩ : ∃ p ∈ ps, p.fate.isFailure := by simpa using hall
      have happlied : ¬p.fate.isApplied := by
        intro happlied
        rw [Fate.isFailure_of_isApplied happlied] at hfailed
        cases hfailed
      use ps.map (·.unsettled), s, Preparation.map_toPreparation_unsettled ps
      constructor
      · constructor
        · intro hall
          apply absurd (hall p.unsettled (List.mem_map_of_mem hp)) happlied
        · intro _
          simp [Preparation.unsettled]
      · have hcommitted : (ps.map (·.unsettled)).all (·.isCommitted) = false := by
          rw [List.all_eq_false]
          use p.unsettled, List.mem_map_of_mem hp
          simp [Settlement.isCommitted, Preparation.unsettled]
        rw [hcommitted, Preparation.map_committed_unsettled, Preparation.commitCalls_unsettled]
        apply Runs.pure

end Agent

/-! ### Undoing -/

namespace Settlement

theorem committed_binding (p : Settlement) (context : RequestContext) :
  (p.committed context).binding = p.asked.binding
  := by
  rw [← p.prepared_binding context, committed]
  split
  · rfl
  · split <;> rfl

theorem committed_target {p : Settlement} (h : p.asked.IsFresh) (context : RequestContext) :
  (p.committed context).target = p.fate.target?
  := by
  rw [← Preparation.prepared_target h context, committed]
  split
  · rfl
  · split <;> rfl

theorem committed_stage {p : Settlement} (h : p.asked.IsFresh) (context : RequestContext) :
  (p.committed context).stage = p.fate.stage
  := by
  rw [← Preparation.prepared_stage h context, committed]
  split
  · rfl
  · split <;> rfl

theorem committed_undo (p : Settlement) (context : RequestContext) :
  (p.committed context).undo = (p.prepared context).undo
  := by
  rw [committed]
  split
  · rfl
  · split <;> rfl

end Settlement

theorem Story.undoCalls_cons (story : Story) (rest : List Story) :
  ((story :: rest).filterMap (·.undoCall?)).reverse
    = (rest.filterMap (·.undoCall?)).reverse ++ story.undoCall?.toList
  := by
  rw [List.filterMap_cons]
  cases story.undoCall? with
  | none => simp
  | some call => simp

namespace Agent

section

variable {a : Agent σ} {context : RequestContext} {v : Variable} {s : AgentState σ}

theorem undo_unapplied (hstage : v.stage ≠ .applied) :
  Runs (a.undo context v) (a.recorded.undo context v) s v s []
  := by
  simp only [undo, hstage, ↓reduceIte]
  apply Runs.pure

theorem undo_applied {target : Entry} {w : Writable σ} {b : Binding} {stored : Option Value}
    {result : WriteResult} {t : AgentState σ}
    (hstage : v.stage = .applied) (htarget : v.target = some target)
    (hbinding : v.binding = b) (hstored : v.undo = stored)
    (hwritable : (a.object target.object).writable = some w)
    (hundo : (w.undo context b stored).run s = (result, t)) :
  Runs (a.undo context v) (a.recorded.undo context v) s
    (if result.isOk then { v with stage := .validated }
      else { v with stage := .validated }.fail .undoFailed) t
    [.undo target.object b stored result]
  := by
  subst hbinding hstored
  have htarget' : ({ v with stage := .validated } : Variable).target = some target := htarget
  simp only [undo, hstage, ↓reduceIte]
  rw [writer?_eq a htarget', recorded_writer? a htarget', hwritable]
  apply Runs.cons (Writable.undo_runs target.object hundo)
  cases result.isOk with
  | true => apply Runs.pure
  | false => apply Runs.pure

end

variable (a : Agent σ) (context : RequestContext)

/-- A variable is undone when its object took the value on. -/
theorem undo_runs (p : Settlement) (hfresh : p.asked.IsFresh) (hserves : a.Serves p.toPreparation)
    (s : AgentState σ) :
  ∃ story : Story, ∃ t, story.toSettlement = p ∧ story.undo.isSome = story.fate.isApplied
    ∧ Runs (a.undo context (p.committed context)) (a.recorded.undo context (p.committed context)) s
        (story.undone context) t story.undoCall?.toList
  := by
  have hstage := Settlement.committed_stage hfresh context
  obtain ⟨⟨v, fate⟩, commit⟩ := p
  cases fate with
  | applied target stored =>
      have htarget := Settlement.committed_target hfresh context
      obtain ⟨w, hwritable⟩ := hserves target rfl
      rcases hrun : (w.undo context v.binding stored).run s with ⟨result, t⟩
      use ⟨⟨⟨v, .applied target stored⟩, commit⟩, some result⟩, t, rfl, rfl
      have hbinding := Settlement.committed_binding ⟨⟨v, .applied target stored⟩, commit⟩ context
      have hstored := Settlement.committed_undo ⟨⟨v, .applied target stored⟩, commit⟩ context
      apply undo_applied hstage htarget hbinding hstored hwritable hrun
  | _ =>
      refine ⟨Settlement.kept _, s, rfl, rfl, ?_⟩
      apply undo_unapplied
      rw [hstage]
      nofun

/-- Variables are undone in reverse order. -/
theorem undoAll_runs (ps : List Settlement) (hfresh : ∀ p ∈ ps, p.asked.IsFresh)
    (hserves : ∀ p ∈ ps, a.Serves p.toPreparation) (s : AgentState σ) :
  ∃ stories : List Story, ∃ t, stories.map (·.toSettlement) = ps
    ∧ (∀ story ∈ stories, story.undo.isSome = story.fate.isApplied)
    ∧ Runs (a.undoAll context (ps.map (·.committed context)))
        (a.recorded.undoAll context (ps.map (·.committed context))) s
        (stories.map (·.undone context)) t (stories.filterMap (·.undoCall?)).reverse
  := by
  induction ps with
  | nil =>
      use [], s, rfl, List.forall_mem_nil _
      apply Runs.pure
  | cons p rest ih =>
      rw [List.forall_mem_cons] at hfresh hserves
      obtain ⟨stories, s₁, hstories, hundo, hruns⟩ := ih hfresh.2 hserves.2
      obtain ⟨story, t, rfl, hfirst, hstory⟩ :=
        undo_runs a context p hfresh.1 hserves.1 s₁
      use story :: stories, t
      refine ⟨by rw [List.map_cons, hstories], List.forall_mem_cons.mpr ⟨hfirst, hundo⟩, ?_⟩
      rw [Story.undoCalls_cons]
      apply Runs.bind hruns
      apply Runs.bind_pure hstory
      · rfl
      · rfl

end Agent

/-! ### Failures -/

theorem UpToFailure.eq_ok {results : List (Option WriteResult)} (h : UpToFailure results)
    (hok : ∀ r ∈ results, r.any (!·.isOk) = false) :
  ∀ r ∈ results, r = some .ok
  := by
  induction results with
  | nil => nofun
  | cons r rest ih =>
      rw [List.forall_mem_cons] at hok ⊢
      cases r with
      | none => cases h
      | some result =>
          have hresult : result.isOk := by simpa using hok.1
          constructor
          · rw [eq_of_beq hresult]
          · rw [UpToFailure, if_pos hresult] at h
            apply ih h hok.2

/-- All objects committed unless a variable failed. -/
theorem Settled.all_isCommitted {ps : List Settlement} (h : Settled ps)
    (happlied : (∀ p ∈ ps, p.fate.isFailure = false) → ∀ p ∈ ps, p.fate.isApplied) :
  ps.all (·.isCommitted) = false ↔ ∃ failed ∈ ps, failed.hasFailed
  := by
  rw [List.all_eq_false]
  constructor
  · rintro ⟨p, hp, hcommit⟩
    by_cases hany : ∃ failed ∈ ps, failed.hasFailed
    · apply hany
    · have hok : ∀ q ∈ ps, q.fate.isFailure = false ∧ q.commit.any (!·.isOk) = false := by
        intro q hq
        have hq' : ¬q.hasFailed := fun hfailed => hany ⟨q, hq, hfailed⟩
        rw [Settlement.hasFailed, Bool.or_eq_true, not_or] at hq'
        simpa using hq'
      have hupto := h.asked (happlied fun q hq => (hok q hq).1)
      have hall := hupto.eq_ok (List.forall_mem_map.mpr fun q hq => (hok q hq).2)
      have hp' := hall p.commit (List.mem_map_of_mem hp)
      rw [Settlement.isCommitted, hp'] at hcommit
      contradiction
  · rintro ⟨p, hp, hfailed⟩
    use p, hp
    rw [Settlement.hasFailed, Bool.or_eq_true] at hfailed
    rcases hfailed with hfate | hcommit
    · have hunapplied : ¬∀ q ∈ ps, q.fate.isApplied := by
        intro hall
        rw [Fate.isFailure_of_isApplied (hall p hp)] at hfate
        cases hfate
      rw [Settlement.isCommitted, h.unasked hunapplied p hp]
      nofun
    · rw [Settlement.isCommitted]
      intro hok
      rw [eq_of_beq hok] at hcommit
      cases hcommit

namespace Settlement

theorem undoCalls_kept (ps : List Settlement) :
  (ps.map (·.kept)).filterMap (·.undoCall?) = []
  := by
  rw [List.filterMap_map, List.filterMap_eq_nil_iff]
  intro p _
  simp only [Function.comp, Story.undoCall?, kept, Option.map_none]
  split
  · rfl
  · rfl

theorem map_toSettlement_kept (ps : List Settlement) :
  (ps.map (·.kept)).map (·.toSettlement) = ps
  := by
  rw [List.map_map]
  apply List.map_id

theorem map_undone_kept (ps : List Settlement) (context : RequestContext) :
  (ps.map (·.kept)).map (·.undone context) = ps.map (·.committed context)
  := by
  rw [List.map_map]
  rfl

end Settlement

namespace Agent

variable (a : Agent σ) (context : RequestContext)

/-- Undoes variables unless all objects committed. -/
def rollback (done : Bool) (vs : List Variable) : AgentM σ (List Variable) :=
  if done then pure vs else a.undoAll context vs

/-- After a failure all variables are undone, and otherwise none is. -/
theorem rollback_runs (ps : List Settlement) (hsettled : Settled ps)
    (happlied : (∀ p ∈ ps, p.fate.isFailure = false) → ∀ p ∈ ps, p.fate.isApplied)
    (hfresh : ∀ p ∈ ps, p.asked.IsFresh) (hserves : ∀ p ∈ ps, a.Serves p.toPreparation)
    (s : AgentState σ) :
  ∃ stories : List Story, ∃ t, stories.map (·.toSettlement) = ps
    ∧ (∀ story ∈ stories,
        (story.undo.isSome ↔ story.fate.isApplied ∧ ∃ failed ∈ stories, failed.hasFailed))
    ∧ Runs
        (a.rollback context (ps.all (·.isCommitted)) (ps.map (·.committed context)))
        (a.recorded.rollback context (ps.all (·.isCommitted)) (ps.map (·.committed context))) s
        (stories.map (·.undone context)) t (stories.filterMap (·.undoCall?)).reverse
  := by
  have hfailed := hsettled.all_isCommitted happlied
  cases hall : ps.all (·.isCommitted) with
  | true =>
      have hnone : ¬∃ failed ∈ ps, failed.hasFailed := by
        rw [← hfailed, hall]
        nofun
      use ps.map (·.kept), s
      refine ⟨?_, ?_, ?_⟩
      · apply Settlement.map_toSettlement_kept
      · rintro _ hstory
        obtain ⟨p, hp, rfl⟩ := List.mem_map.mp hstory
        constructor
        · nofun
        · rintro ⟨_, _, hfailed, hkept⟩
          obtain ⟨q, hq, rfl⟩ := List.mem_map.mp hfailed
          exact absurd ⟨q, hq, hkept⟩ hnone
      · rw [Settlement.undoCalls_kept, Settlement.map_undone_kept]
        apply Runs.pure
  | false =>
      obtain ⟨stories, t, rfl, hundo, hruns⟩ := undoAll_runs a context ps hfresh hserves s
      use stories, t, rfl
      constructor
      · intro story hstory
        obtain ⟨p, hp, hp'⟩ := hfailed.mp hall
        obtain ⟨failed, hmem, rfl⟩ := List.mem_map.mp hp
        rw [hundo story hstory, iff_self_and]
        intro _
        use failed, hmem, hp'
      · apply hruns

end Agent

/-! ### Releasing -/

namespace Story

theorem undone_binding (story : Story) (context : RequestContext) :
  (story.undone context).binding = story.asked.binding
  := by
  rw [← story.committed_binding context, undone]
  split
  · rfl
  · split <;> rfl

theorem undone_target {story : Story} (h : story.asked.IsFresh) (context : RequestContext) :
  (story.undone context).target = story.fate.target?
  := by
  rw [← Settlement.committed_target h context, undone]
  split
  · rfl
  · split <;> rfl

theorem undone_stage {story : Story} (h : story.asked.IsFresh) (context : RequestContext) :
  (story.undone context).stage = if story.undo.isSome then .validated else story.fate.stage
  := by
  rw [← Settlement.committed_stage h context, undone]
  split
  · rename_i hundo
    rw [hundo]
    rfl
  · rename_i hundo
    rw [hundo]
    split <;> rfl

theorem undone_stage_iff {story : Story} (h : story.asked.IsFresh)
    (hundo : story.undo.isSome → story.fate.isApplied) (context : RequestContext) :
  ((story.undone context).stage = .validated ∨ (story.undone context).stage = .applied)
    ↔ story.fate.isValid
  := by
  rw [undone_stage h]
  cases hsome : story.undo.isSome with
  | true => simp [Fate.isValid_of_isApplied (hundo hsome)]
  | false => apply Fate.stage_iff_isValid

end Story

theorem Variable.released_eq {v : Variable} (h : v.stage = .untouched) :
  v.released = v
  := by
  rw [released, ← h]

namespace Agent

section

variable {a : Agent σ} {context : RequestContext} {v : Variable} {s t : AgentState σ}

theorem release_untargeted (htarget : v.target = none) (hstage : v.stage = .untouched) :
  Runs (a.release context v) (a.recorded.release context v) s v.released s []
  := by
  rw [Variable.released_eq hstage, release, release, htarget]
  apply Runs.pure

theorem release_eq {target : Entry} (htarget : v.target = some target) :
  a.release context v = do
    a.cleanup context v
    if v.stage = .untouched then return v
    else
      unlockFor context target.object
      return v.released
  := by
  cases v
  cases htarget
  rfl

theorem release_targeted {target : Entry} {calls : List Call} (htarget : v.target = some target)
    (hcleanup : Runs (a.cleanup context v) (a.recorded.cleanup context v) s () t calls) :
  ∃ t, Runs (a.release context v) (a.recorded.release context v) s v.released t calls
  := by
  rw [release_eq htarget, release_eq htarget]
  by_cases hstage : v.stage = .untouched
  · use t
    rw [Variable.released_eq hstage]
    apply Runs.bind_pure hcleanup
    · rw [if_pos hstage]
    · rw [if_pos hstage]
  · rcases hunlock : (unlockFor context target.object).run t with ⟨_, u⟩
    use u
    rw [← List.append_nil calls]
    apply Runs.bind hcleanup
    rw [if_neg hstage, if_neg hstage]
    apply Runs.unnoted_bind (unnoted_unlockFor context target.object) hunlock
    apply Runs.pure

theorem cleanup_unvalidated (hstage : ¬(v.stage = .validated ∨ v.stage = .applied)) :
  Runs (a.cleanup context v) (a.recorded.cleanup context v) s () s []
  := by
  rw [cleanup, cleanup, if_neg hstage, if_neg hstage]
  apply Runs.pure

theorem cleanup_validated {target : Entry} {w : Writable σ}
    (hstage : v.stage = .validated ∨ v.stage = .applied) (htarget : v.target = some target)
    (hwritable : (a.object target.object).writable = some w)
    (hcleanup : (w.cleanup context v.binding).run s = ((), t)) :
  Runs (a.cleanup context v) (a.recorded.cleanup context v) s () t
    [.cleanup target.object v.binding]
  := by
  rw [cleanup, cleanup, if_pos hstage, if_pos hstage, writer?_eq a htarget,
    recorded_writer? a htarget, hwritable]
  apply Writable.cleanup_runs target.object hcleanup

end

variable (a : Agent σ) (context : RequestContext)

/-- A variable is cleaned up when its object found the value valid. -/
theorem release_runs (story : Story) (hfresh : story.asked.IsFresh)
    (hserves : a.Serves story.toPreparation)
    (hundo : story.undo.isSome → story.fate.isApplied) (s : AgentState σ) :
  ∃ t, Runs (a.release context (story.undone context))
    (a.recorded.release context (story.undone context)) s
    (story.released context) t story.cleanupCall?.toList
  := by
  have hstage := Story.undone_stage_iff hfresh hundo context
  have htarget := Story.undone_target hfresh context
  rw [Story.cleanupCall?]
  by_cases hvalid : story.fate.isValid
  · obtain ⟨target, hreceiver, hfound⟩ := Fate.exists_receiver hvalid
    obtain ⟨w, hwritable⟩ := hserves target hreceiver
    rcases hrun : (w.cleanup context (story.undone context).binding).run s with ⟨_, t⟩
    rw [hfound] at htarget
    have hcleanup := cleanup_validated (hstage.mpr hvalid) htarget hwritable hrun
    rw [if_pos hvalid, hreceiver, ← story.undone_binding context]
    apply release_targeted htarget hcleanup
  · rw [if_neg hvalid]
    cases hfound : story.fate.target? with
    | none =>
        rw [hfound] at htarget
        use s
        apply release_untargeted htarget
        rw [Story.undone_stage hfresh, if_neg (mt (Fate.isValid_of_isApplied ∘ hundo) hvalid)]
        apply Fate.stage_of_target?_eq_none hfound
    | some target =>
        rw [hfound] at htarget
        apply release_targeted htarget
        apply cleanup_unvalidated (mt hstage.mp hvalid)

/-- Variables are cleaned up in order. -/
theorem releaseAll_runs (stories : List Story) (hfresh : ∀ story ∈ stories, story.asked.IsFresh)
    (hserves : ∀ story ∈ stories, a.Serves story.toPreparation)
    (hundo : ∀ story ∈ stories, story.undo.isSome → story.fate.isApplied) (s : AgentState σ) :
  ∃ t, Runs (a.releaseAll context (stories.map (·.undone context)))
    (a.recorded.releaseAll context (stories.map (·.undone context))) s
    (stories.map (·.released context)) t (stories.filterMap (·.cleanupCall?))
  := by
  induction stories generalizing s with
  | nil =>
      use s
      apply Runs.pure
  | cons story rest ih =>
      rw [List.forall_mem_cons] at hfresh hserves hundo
      obtain ⟨s₁, hfirst⟩ := release_runs a context story hfresh.1 hserves.1 hundo.1 s
      obtain ⟨t, hrest⟩ := ih hfresh.2 hserves.2 hundo.2 s₁
      use t
      have hcalls : (story :: rest).filterMap (·.cleanupCall?)
          = story.cleanupCall?.toList ++ rest.filterMap (·.cleanupCall?) := by
        rw [List.filterMap_cons]
        cases story.cleanupCall? with
        | none => rfl
        | some call => rfl
      rw [hcalls]
      apply Runs.bind hfirst
      apply Runs.bind_pure hrest
      · rfl
      · rfl

end Agent

/-! ### The whole write -/

namespace Request

variable (context : RequestContext) (transaction : Nat) {pdu : Pdu} (maxSize : Nat)

theorem vars_create_set (hset : pdu.operation = .set) :
  (create context transaction pdu maxSize).vars.toList = pdu.bindings.mapIdx (askedFor .set)
  := by
  simp [create, effectiveOperation, hset]

theorem operation_create_set (hset : pdu.operation = .set) :
  (create context transaction pdu maxSize).operation = .set
  := by
  simp [create, effectiveOperation, operation, hset]

/-- Nothing was done yet about variables that were only asked for. -/
theorem isFresh_askedFor (operation : Operation) (bindings : List Binding) :
  ∀ v ∈ bindings.mapIdx (askedFor operation), v.IsFresh
  := by
  intro v hv
  obtain ⟨index, hindex, rfl⟩ := List.mem_mapIdx.mp hv
  constructor
  · rfl
  · rfl
  · rfl

theorem isFresh_create_set (hset : pdu.operation = .set) :
  ∀ v ∈ (create context transaction pdu maxSize).vars.toList, v.IsFresh
  := by
  rw [vars_create_set context transaction maxSize hset]
  apply isFresh_askedFor

end Request

namespace Agent

variable (a : Agent σ) (context : RequestContext)

/-- Settled variables that were prepared one after the other have the stories of a write. -/
theorem Writes.of_meetAll {s t : AgentState σ} {stories : List Story}
    (hmeet : a.MeetAll context true s (stories.map (·.toPreparation)) t)
    (hsettled : Settled (stories.map (·.toSettlement)))
    (hundone : ∀ story ∈ stories,
      (story.undo.isSome ↔ story.fate.isApplied ∧ ∃ failed ∈ stories, failed.hasFailed)) :
  a.Writes context s stories
  where
  prepared := ⟨t, hmeet⟩
  validated := by
    rintro earlier story later rfl
    rw [List.map_append, List.map_cons] at hmeet
    obtain ⟨u, _, hearlier, hmeets⟩ := hmeet.meets
    use u, hearlier
    apply hmeets.receiver?_eq_some_iff
  offered := by
    rintro earlier story later rfl
    rw [List.map_append, List.map_cons] at hmeet
    obtain ⟨_, _, _, hmeets⟩ := hmeet.meets
    rw [hmeets.isOffered_iff]
    simp
  settled := hsettled
  undone := hundone

theorem write_eq (r : Request) :
  a.write r = do
    let (prepared, vs) ← a.prepareAll r.context true r.vars.toList
    let (committed, vs) ← a.settle r.context prepared vs
    let vs ← a.rollback r.context committed vs
    let vs ← a.releaseAll r.context vs
    return { r with vars := vs.toArray }
  := by
  apply bind_congr
  rintro ⟨prepared, vs⟩
  apply bind_congr
  rintro ⟨committed, vs⟩
  cases committed with
  | true => rfl
  | false => rfl

/-- A write goes through its phases as the stories of its variables tell. -/
theorem write_runs (r : Request) (hfresh : ∀ v ∈ r.vars.toList, v.IsFresh) (s : AgentState σ) :
  ∃ stories : List Story, ∃ t, stories.map (·.asked) = r.vars.toList
    ∧ a.Writes r.context s stories
    ∧ Runs (a.write r) (a.recorded.write r) s (r.written stories) t (Story.calls stories)
  := by
  obtain ⟨ps, s₁, hasked, hmeet, hprepare⟩ := prepareAll_runs a r.context true r.vars.toList s
  obtain ⟨qs, s₂, rfl, hsettled, hsettle⟩ := settle_runs a r.context hmeet
  have hps : ∀ q ∈ qs, q.asked.IsFresh ∧ a.Serves q.toPreparation := by
    intro q hq
    have hq' : q.toPreparation ∈ qs.map (·.toPreparation) := List.mem_map_of_mem hq
    constructor
    · apply hfresh
      rw [← hasked]
      apply List.mem_map_of_mem hq'
    · apply hmeet.serves _ hq'
  have happlied : (∀ q ∈ qs, q.fate.isFailure = false) → ∀ q ∈ qs, q.fate.isApplied := by
    simpa using hmeet.isApplied
  obtain ⟨stories, s₃, rfl, hundone, hrollback⟩ := rollback_runs a r.context qs hsettled happlied
    (fun q hq => (hps q hq).1) (fun q hq => (hps q hq).2) s₂
  rw [List.forall_mem_map] at hps
  obtain ⟨t, hrelease⟩ := releaseAll_runs a r.context stories
    (fun story hstory => (hps story hstory).1) (fun story hstory => (hps story hstory).2)
    (fun story hstory hundo => ((hundone story hstory).mp hundo).1) s₃
  rw [List.map_map] at hmeet hasked
  use stories, t
  refine ⟨?_, Writes.of_meetAll a r.context hmeet hsettled hundone, ?_⟩
  · rw [← hasked, List.map_map]
    rfl
  · have hcalls : Story.calls stories
        = ((stories.map (·.toSettlement)).map (·.toPreparation)).flatMap (·.calls)
          ++ ((stories.map (·.toSettlement)).filterMap (·.commitCall?)
          ++ ((stories.filterMap (·.undoCall?)).reverse
          ++ stories.filterMap (·.cleanupCall?))) := by
      rw [List.flatMap_map, List.flatMap_map, List.filterMap_map, ← List.append_assoc,
        ← List.append_assoc]
      rfl
    rw [hcalls, write_eq, write_eq]
    apply Runs.bind hprepare
    apply Runs.bind hsettle
    apply Runs.bind hrollback
    apply Runs.bind_pure hrelease
    · rfl
    · rfl

/-- A request that sets variables is carried out by a write. -/
theorem perform_create_set (transaction : Nat) {pdu : Pdu} (maxSize : Nat)
    (hset : pdu.operation = .set) :
  a.perform (.create context transaction pdu maxSize)
    = a.write (.create context transaction pdu maxSize)
  := by
  rw [perform, Request.operation_create_set context transaction maxSize hset]
  rfl

/-- The calls made to set variables are those of their stories, phase by phase: the variables
meet their fates in order, their objects commit, undo in reverse order, and clean up. -/
theorem set_follows_phases (transaction : Nat) {pdu : Pdu} (maxSize : Nat)
    (hset : pdu.operation = .set) (s : AgentState σ) :
  let r := Request.create context transaction pdu maxSize
  ∃ stories : List Story, ∃ t,
    stories.map (·.asked) = pdu.bindings.mapIdx (Request.askedFor .set)
      ∧ a.Writes r.context s stories
      ∧ Runs (a.perform r) (a.recorded.perform r) s (r.written stories) t (Story.calls stories)
  := by
  intro r
  have hfresh := Request.isFresh_create_set context transaction maxSize hset
  obtain ⟨stories, t, hasked, hwrites, hruns⟩ := write_runs a r hfresh s
  use stories, t
  rw [← Request.vars_create_set context transaction maxSize hset,
    perform_create_set a context transaction maxSize hset,
    perform_create_set a.recorded context transaction maxSize hset]
  exact ⟨hasked, hwrites, hruns⟩

/-- A pair of instances is set phase by phase. -/
theorem pair_follows_phases :
  let r := Request.create Keepers.requester 1 Keepers.pair 484
  ∃ stories : List Story, ∃ t,
    stories.map (·.asked) = Keepers.pair.bindings.mapIdx (Request.askedFor .set)
      ∧ (Keepers.agent {}).Writes r.context Keepers.ready stories
      ∧ Runs ((Keepers.agent {}).perform r) ((Keepers.agent {}).recorded.perform r)
          Keepers.ready (r.written stories) t (Story.calls stories)
  := set_follows_phases (Keepers.agent {}) Keepers.requester 1 484 rfl Keepers.ready

end Agent

end MibAgent
