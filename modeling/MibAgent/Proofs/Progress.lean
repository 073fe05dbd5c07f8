import MibAgent.Proofs.BulkReads
import MibAgent.Proofs.SearchTurns
import MibAgent.Proofs.Secrecy

/-!
# Progress

A read of what comes next moves forward whatever is registered, and whatever the objects and the
rules of access say: it never gives an OID that does not lie behind the one that was asked for. So
the OIDs of a column of a bulk read ascend until there is an exception. Only a variable whose
object could not be locked stays where it is. It has failed, and the response does not show it.
-/

namespace MibAgent

open AgentM (Ensures)
open Agent (NextOutcome recordNext)

variable {σ : Type}

/-! ### One variable -/

/-- How a variable that asked for what comes after an OID may be when it has been read. -/
inductive Variable.MovesFrom (x : Oid) (w : Variable) : Prop where
  /-- The search was given up. -/
  | pending (unread : w.isComplete = false)
  /-- The lock on an object could not be had, and the variable has stayed at the OID. -/
  | failed (status : w.status = .resourceUnavailable) (binding : w.binding = .ask x)
  /-- There is an exception. -/
  | ended (status : w.status = .noError) (exception : w.binding.isException)
  /-- There is something behind the OID. -/
  | moved (status : w.status = .noError) (behind : x < w.binding.oid)

/-- What repeats an exception is an exception. -/
theorem Variable.movesFrom_repetition {p : Variable} (h : p.binding.isException)
    (index predecessor : Nat) :
  (Variable.repetition index predecessor p).MovesFrom p.binding.oid
  := by
  apply MovesFrom.ended
  · rfl
  · rw [repetition, if_pos h]
    apply h

variable {context : RequestContext} {op : Operation} {v : Variable} {x : Oid}

theorem Trail.movesFrom {seen : Entry → Prop} {named : Oid → Prop} {turns : Nat}
    {queries : List Query} {o : NextOutcome}
    (h : Trail context seen named turns (Agent.queryFor context v false) queries o)
    (hasks : v.Asks op x) (hnext : op.isNext) :
  (recordNext v o).MovesFrom x
  := by
  have hrange : (Agent.queryFor context v false).range = .after x := by
    apply hasks.scope.trans
    rw [if_pos hnext]
  cases o with
  | endOfView => exact .ended hasks.healthy rfl
  | unavailable e => exact .failed rfl hasks.binding
  | found e q b =>
      have hinside := (h.inside rfl).1
      rw [hrange, Scope.contains_after_iff] at hinside
      exact .moved hasks.healthy hinside
  | unfinished => exact .pending hasks.unread

/-! ### Columns -/

namespace Request

/-- Each variable in a later row has moved on from the OID of the one above it. -/
def ColumnsMove (r : Request) : Prop :=
  ∀ i p w, 0 < r.repeaters → r.nonRepeaters + r.repeaters ≤ i →
    r.vars[i - r.repeaters]? = some p → r.vars[i]? = some w → w.MovesFrom p.binding.oid

variable {start r : Request}

theorem IsFinished.columnsMove {Q : Oid → Variable → Prop} (h : start.IsFinished Q r)
    (hnew : start.IsNewRead) (hmoves : ∀ x w, Q x w → w.MovesFrom x) :
  r.ColumnsMove
  := by
  intro i p w hrepeaters hi hp hw
  rw [h.continues.nonRepeaters, h.continues.repeaters] at hi
  rw [h.continues.repeaters] at hrepeaters hp
  obtain ⟨hsize, -⟩ := Array.getElem?_eq_some_iff.mp hw
  obtain ⟨x, w', hx, hw', hQ⟩ := h.read i hsize
  cases hw.symm.trans hw'
  have hlate : start.size ≤ i := by
    apply (hnew.toIsNew.size_le_of_row (k := 0) hrepeaters rfl).trans
    rwa [Nat.zero_add, Nat.one_mul]
  rw [askedAt?, Array.getElem?_eq_none_iff.mpr hlate, Option.none_or, hp] at hx
  cases hx
  apply hmoves _ _ hQ

/-- In the response to a bulk read the OIDs of each column ascend until there is an exception. -/
theorem ColumnsMove.ascend (h : r.ColumnsMove) (hcomplete : r.isComplete)
    (hrequested : r.requested.length ≤ r.nonRepeaters + r.repeaters) (hrepeaters : 0 < r.repeaters)
    {i : Nat} {b c : Binding} (hi : r.nonRepeaters + r.repeaters ≤ i)
    (hb : r.response.bindings[i - r.repeaters]? = some b) (hc : r.response.bindings[i]? = some c)
    (hvalue : c.isException = false) :
  b.oid < c.oid
  := by
  cases hfailure : r.failure? with
  | some failure =>
      -- a failure is reported with the bindings that were received, which are a single row
      obtain ⟨status, index⟩ := failure
      rw [response_of_failure hfailure] at hc
      obtain ⟨hlt, -⟩ := List.getElem?_eq_some_iff.mp hc
      apply absurd (hrequested.trans hi) hlt.not_ge
  | none =>
      have hanswers : ∀ (j : Nat) (d : Binding), r.response.bindings[j]? = some d →
          ∃ w : Variable, r.vars[j]? = some w ∧ w.binding = d := by
        intro j d hd
        rw [response_of_success hfailure] at hd
        split at hd
        · obtain ⟨dropped, hdropped⟩ := r.fittingBindings_isPrefix
          obtain ⟨hkept, -⟩ := List.getElem?_eq_some_iff.mp hd
          rw [← List.getElem?_append_left hkept, hdropped, getElem?_bindings,
            Option.map_eq_some_iff] at hd
          apply hd
        · cases hd
      obtain ⟨p, hp, rfl⟩ := hanswers _ _ hb
      obtain ⟨w, hw, rfl⟩ := hanswers _ _ hc
      have hmem : w ∈ r.vars := Array.mem_of_getElem? hw
      cases h i p w hrepeaters hi hp hw with
      | pending hunread =>
          have hread := Array.all_eq_true'.mp hcomplete w hmem
          rw [hunread] at hread
          cases hread
      | failed hstatus _ =>
          rw [status_eq_noError_of_success hfailure hmem] at hstatus
          cases hstatus
      | ended _ hexception =>
          rw [hvalue] at hexception
          cases hexception
      | moved _ hbehind => apply hbehind

/-- A bulk read has been asked for no more bindings than its first row and what is read once. -/
theorem length_requested_create (context : RequestContext) (transaction : Nat) (pdu : Pdu)
    (maxSize : Nat) :
  let start := create context transaction pdu maxSize
  0 < start.repeaters → start.requested.length ≤ start.nonRepeaters + start.repeaters
  := by
  intro start hrepeaters
  simp only [start, create] at hrepeaters ⊢
  split
  · omega
  · rename_i hbulk
    rw [if_neg hbulk] at hrepeaters
    cases hrepeaters

end Request

/-! ### Any agent -/

namespace Agent

variable {a : Agent σ}

theorem movesFrom_readNext (hasks : v.Asks op x) (hnext : op.isNext) :
  Ensures (fun _ => True) (a.readNext context v) (·.MovesFrom x)
  := by
  apply ensures_readNext (a.searchesAmong_all context)
  intro queries o htrail
  apply htrail.movesFrom hasks hnext

/-- A read of what comes next makes the variables of every row move on from those of the row
before. -/
theorem columnsMove_performNext (a : Agent σ) (context : RequestContext) (transaction : Nat) {pdu : Pdu}
    (maxSize : Nat) (hnext : pdu.operation.isNext) :
  let start := Request.create context transaction pdu maxSize
  Ensures (fun _ => True) (a.perform start) (fun r => r.ColumnsMove ∧ start.Continues r)
  := by
  intro start
  have hread := Operation.isWrite_of_isNext hnext
  have hnew := Request.isNewRead_create context transaction maxSize hread
  have hstart := Request.isNext_create context transaction maxSize hnext
  have hfinishes : Ensures (fun _ => True) (a.perform start)
      (start.IsFinished fun y w => w.MovesFrom y) := by
    rw [perform_create_read a context transaction maxSize hread]
    apply ensures_read hnew
    · intro y w hasks
      rw [readVariable, if_pos]
      · apply movesFrom_readNext hasks hstart
      · apply hstart
    · intro _ y p index predecessor _ hexception
      apply Variable.movesFrom_repetition hexception
  apply hfinishes.mono
  intro r hfinished
  exact ⟨hfinished.columnsMove hnew fun _ _ hQ => hQ, hfinished.continues⟩

/-- A read of what comes next moves forward, and the windows of its search only shrink. So in a
bulk read every variable has moved on from the one above it in its column, and in the response the
OIDs of each column ascend until there is an exception. -/
theorem next_moves_on (a : Agent σ) (context : RequestContext) (s : AgentState σ) :
  (∀ (v : Variable) (x : Oid), v.Asks .getNext x →
    let search := (a.searchTurns context a.searchLimit (queryFor context v false)).run s
    (a.readNext context v).run s = (recordNext v search.1.2, search.2)
      ∧ (recordNext v search.1.2).MovesFrom x
      ∧ search.1.1.Pairwise fun p q =>
          p.Advances q ∧ ∀ y, q.range.contains y → p.range.contains y)
    ∧ ∀ transaction (pdu : Pdu) maxSize, pdu.operation = .getBulk →
      let r := ((a.perform (.create context transaction pdu maxSize)).run s).1
      r.ColumnsMove
        ∧ (r.isComplete → 0 < r.repeaters → ∀ (i : Nat) (b c : Binding),
            r.nonRepeaters + r.repeaters ≤ i → r.response.bindings[i - r.repeaters]? = some b →
            r.response.bindings[i]? = some c → c.isException = false → b.oid < c.oid)
  := by
  constructor
  · intro v x hasks search
    have htrail := ((ensures_searchTurns (a.searchesAmong_all context) a.searchLimit
      (queryFor context v false) rfl).run s trivial).2
    refine ⟨run_readNext a context v s, htrail.movesFrom hasks rfl, ?_⟩
    apply htrail.pairwise.imp
    intro p q hadvances
    exact ⟨hadvances, fun y => hadvances.contains⟩
  · intro transaction pdu maxSize hbulk r
    have hnext : pdu.operation.isNext := by rw [hbulk]; rfl
    obtain ⟨-, hmove, hcontinues⟩ :=
      (columnsMove_performNext a context transaction maxSize hnext).run s trivial
    use hmove
    intro hcomplete hrepeaters i b c hi hb hc hvalue
    apply hmove.ascend hcomplete _ hrepeaters hi hb hc hvalue
    have hrequested := Request.length_requested_create context transaction pdu maxSize
    rw [hcontinues.requested, hcontinues.nonRepeaters, hcontinues.repeaters]
    apply hrequested
    rwa [hcontinues.repeaters] at hrepeaters

end Agent

namespace Shelves

/-- Two shelves, the second of which somebody else has locked. -/
def halfLocked : AgentState Unit :=
  ((Agent.tryLock 7 2).run (stocked [placed pairs none 1, placed pairs none 2])).2

/-- A bulk read of three rows that begins before all shelves. -/
def threeRows : Request :=
  .create (.ofVersion .v2c) 1 { Pdu.asking .getBulk 1 [⟨[1, 1]⟩] with maxRepetitions := 3 } 500

/-- The search after the first instance of the first shelf moves on, and so does a bulk read. -/
theorem halfLocked_moves_on :
  let a := agent pairs fun _ => true
  let v := Request.askedFor .getNext 0 (.ask (first 1))
  ((a.readNext (.ofVersion .v2c) v).run halfLocked).1.MovesFrom (first 1)
    ∧ ((a.perform threeRows).run halfLocked).1.ColumnsMove
  := by
  intro a v
  obtain ⟨hsearch, hbulk⟩ := Agent.next_moves_on a (.ofVersion .v2c) halfLocked
  obtain ⟨hread, hmoves, -⟩ := hsearch v (first 1) (Request.asks_askedFor rfl 0 (.ask (first 1)))
  refine ⟨?_, (hbulk 1 _ 500 rfl).1⟩
  rw [hread]
  apply hmoves

/-- A variable whose object is locked stays: without any exception, the last two rows of the bulk
read have the same OID. -/
theorem threeRows_stay :
  let r := (((agent pairs fun _ => true).perform threeRows).run halfLocked).1
  r.isComplete ∧ r.nonRepeaters = 0 ∧ r.repeaters = 1
    ∧ r.bindings = [⟨first 1, .integer 5⟩, ⟨second 1, .integer 6⟩, .ask (second 1)]
    ∧ r.bindings.all (!·.isException)
    ∧ r.response.status = .resourceUnavailable
  := by decide +kernel

end Shelves

end MibAgent
