import MibAgent.Proofs.SearchTurns
import MibAgent.Proofs.Shelves
import Mathlib.Data.Finset.Card

/-!
# How long a search may take

Nothing counts the turns of a search. It ends nevertheless when the requester sees finitely many
registrations and the objects answer with finitely many OIDs: a turn after which the search goes
on takes a registration or an OID out of the window for good. So there are no more turns than
there are registrations and OIDs, and one that ends the search.
-/

namespace MibAgent

open AgentM (Keeps)
open Agent (NextOutcome)

variable {σ : Type}

/-! ### What is left in a window -/

/-- How many registrations overlap the window of a query, together with how many OIDs lie in it. -/
def Query.outlook (q : Query) (entries : List Entry) (oids : Finset Oid) : Nat :=
  entries.countP (·.scope.scope.overlaps q.range) + (oids.filter (q.range.contains ·)).card

variable {entries : List Entry} {oids : Finset Oid} {p q : Query}

theorem Query.outlook_le (q : Query) (entries : List Entry) (oids : Finset Oid) :
  q.outlook entries oids ≤ entries.length + oids.card
  := Nat.add_le_add List.countP_le_length (Finset.card_filter_le _ _)

namespace Query.Advances

theorem countP_le (h : p.Advances q) (entries : List Entry) :
  entries.countP (·.scope.scope.overlaps q.range)
    ≤ entries.countP (·.scope.scope.overlaps p.range)
  := by
  apply List.countP_mono_left
  intro e _
  apply h.overlaps

theorem filter_subset (h : p.Advances q) (oids : Finset Oid) :
  oids.filter (q.range.contains ·) ⊆ oids.filter (p.range.contains ·)
  := by
  apply Finset.monotone_filter_right
  intro x _
  apply h.contains

/-- An OID that has left the window is not counted any more. -/
theorem outlook_lt_of_oid (h : p.Advances q) {x : Oid} (hx : x ∈ oids) (hp : p.range.contains x)
    (hq : q.range.contains x = false) :
  q.outlook entries oids < p.outlook entries oids
  := by
  apply Nat.add_lt_add_of_le_of_lt (h.countP_le entries)
  apply Finset.card_lt_card
  rw [Finset.ssubset_iff_of_subset (h.filter_subset oids)]
  use x, Finset.mem_filter.mpr ⟨hx, hp⟩
  rw [Finset.mem_filter, hq]
  rintro ⟨-, hfalse⟩
  cases hfalse

/-- A registration that does not overlap the window any more is not counted any more. -/
theorem outlook_lt_of_entry (h : p.Advances q) {e : Entry} (he : e ∈ entries)
    (hp : e.scope.scope.overlaps p.range) (hq : e.scope.scope.overlaps q.range = false) :
  q.outlook entries oids < p.outlook entries oids
  := by
  apply Nat.add_lt_add_of_lt_of_le _ (Finset.card_le_card (h.filter_subset oids))
  obtain ⟨earlier, later, rfl⟩ := List.append_of_mem he
  rw [List.countP_append, List.countP_append, List.countP_cons, List.countP_cons, if_pos hp, hq,
    if_neg Bool.false_ne_true]
  apply Nat.add_lt_add_of_le_of_lt (h.countP_le earlier)
  apply Nat.lt_succ_of_le (h.countP_le later)

end Query.Advances

/-! ### Turns that are left -/

variable {context : RequestContext}

/-- After a turn the search has less before it. -/
theorem SearchTurn.Follows.outlook_lt
    (h : SearchTurn.Follows context (· ∈ entries) (· ∈ oids) p (.goesOn q)) :
  q.outlook entries oids < p.outlook entries oids
  := by
  cases h with
  | @denied x hinside hx =>
      apply (Query.advances_restart hinside).outlook_lt_of_oid hx hinside
      rw [← Bool.not_eq_true, Scope.contains_iff]
      rintro ⟨hstart, -⟩
      apply lt_irrefl _ hstart
  | @passed e _ he hoverlaps hpast =>
      obtain ⟨hadvances, hstart⟩ := Query.advances_past hoverlaps hpast
      apply hadvances.outlook_lt_of_entry he hoverlaps
      apply Scope.overlaps_eq_false hstart.ge

namespace Trail

variable {turns : Nat} {queries : List Query} {o : NextOutcome}

/-- A search has no more turns than there is before it, and one that ends it. -/
theorem length_le (h : Trail context (· ∈ entries) (· ∈ oids) turns q queries o) :
  queries.length ≤ q.outlook entries oids + 1
  := by
  induction h with
  | unfinished => apply Nat.zero_le
  | ends _ => apply Nat.succ_le_succ (Nat.zero_le _)
  | goesOn hturn _ ih =>
      apply Nat.succ_le_succ
      apply ih.trans (Nat.succ_le_of_lt hturn.outlook_lt)

/-- A search that may have more turns than there is before it is not given up. -/
theorem ne_unfinished (h : Trail context (· ∈ entries) (· ∈ oids) turns q queries o)
    (hturns : q.outlook entries oids < turns) :
  o ≠ .unfinished
  := by
  induction h with
  | unfinished => apply absurd hturns (Nat.not_lt_zero _)
  | ends hturn =>
      rintro rfl
      cases hturn
  | goesOn hturn _ ih =>
      apply ih
      apply hturn.outlook_lt.trans_le (Nat.le_of_lt_succ hturns)

end Trail

namespace Agent

variable {a : Agent σ} {s : AgentState σ}

/-- A search that has not been given up takes no more turns when it may. -/
theorem run_searchTurns_of_le {turns more : Nat} (hle : turns ≤ more)
    (h : ((a.searchTurns context turns q).run s).1.2 ≠ .unfinished) :
  (a.searchTurns context more q).run s = (a.searchTurns context turns q).run s
  := by
  induction turns generalizing more q s with
  | zero => apply absurd rfl h
  | succ turns ih =>
      obtain ⟨more, rfl⟩ := Nat.exists_eq_succ_of_ne_zero (Nat.ne_of_gt (Nat.zero_lt_of_lt hle))
      rw [searchTurns, AgentM.run_bind] at h ⊢
      rw [searchTurns, AgentM.run_bind]
      cases hturn : ((a.searchTurn context q).run s).1 with
      | ends o => rfl
      | goesOn next =>
          rw [hturn] at h
          dsimp only at h ⊢
          rw [AgentM.run_bind] at h ⊢
          rw [AgentM.run_bind, ih (Nat.le_of_succ_le_succ hle) h]

variable {I : AgentState σ → Prop}

/-- A search among registrations and OIDs that are all listed has no more turns than there are of
both, and one that ends it. When it may have so many turns, it comes to an end of itself. -/
theorem readNext_ends (context : RequestContext) (s : AgentState σ) (oids : Finset Oid)
    (h : a.SearchesAmong I context
      (· ∈ s.registry.store.visible (.ofName context.context) false) (· ∈ oids))
    (hs : I s) (v : Variable) :
  let query := queryFor context v false
  let bound := (s.registry.store.visible (.ofName context.context) false).length + oids.card + 1
  let search := (a.searchTurns context bound query).run s
  (∀ turns, ((a.searchTurns context turns query).run s).1.1.length ≤ bound)
    ∧ (∀ turns, bound ≤ turns → (a.searchTurns context turns query).run s = search)
    ∧ (bound ≤ a.searchLimit →
      (a.readNext context v).run s = (recordNext v search.1.2, search.2))
    ∧ (recordNext v search.1.2).isComplete
  := by
  intro query bound search
  have htrail := fun turns =>
    ((ensures_searchTurns h turns query rfl).run s hs).2
  have houtlook := query.outlook_le (s.registry.store.visible (.ofName context.context) false) oids
  have hfinished : search.1.2 ≠ .unfinished :=
    (htrail bound).ne_unfinished (Nat.lt_succ_of_le houtlook)
  have hmore : ∀ turns, bound ≤ turns → (a.searchTurns context turns query).run s = search :=
    fun turns hle => run_searchTurns_of_le hle hfinished
  refine ⟨?_, hmore, ?_, ?_⟩
  · intro turns
    apply (htrail turns).length_le.trans (Nat.succ_le_succ houtlook)
  · intro hlimit
    rw [run_readNext, hmore _ hlimit]
  · apply isComplete_recordNext hfinished

end Agent

namespace Shelves

/-- Shelves that answer every search with the same binding. -/
def stuck (b : Binding) : Agent Unit :=
  { agent pairs fun _ => true with
    object := fun number => { object (pairs number) with next := fun _ _ => return .found b } }

theorem searchesAmong_stuck (b : Binding) (context : RequestContext) (store : Store) :
  (stuck b).SearchesAmong (·.registry.store = store) context
    (· ∈ store.visible (.ofName context.context) false) (· ∈ ({b.oid} : Finset Oid))
  where
  considered _ _ _ := ⟨fun _ hs => hs⟩
  found _ _ _ := ⟨fun _ hs => hs⟩
  rule := nofun
  refresh := nofun
  locks _ _ hs := hs
  access _ := ⟨fun _ hs => hs⟩
  wait _ _ _ := ⟨fun _ hs => hs⟩
  next _ _ _ := ⟨fun _ hs => hs⟩
  sees s hs e he := by rwa [← hs]
  answers _ _ _ _ _ b' hb := by
    cases hb
    apply Finset.mem_singleton_self

/-- Two shelves that both answer with the first instance of the first one, when what comes after
it is asked for: the search ends with the third turn. -/
theorem stuck_readNext_ends :
  let s := stocked [placed pairs none 1, placed pairs none 2]
  let b : Binding := ⟨first 1, .integer 5⟩
  let context := RequestContext.ofVersion .v2c
  let v := Request.askedFor .getNext 0 (.ask (first 1))
  let query := Agent.queryFor context v false
  let search := ((stuck b).searchTurns context 4 query).run s
  search.1.1.length = 3
    ∧ (∀ turns, (((stuck b).searchTurns context turns query).run s).1.1.length ≤ 4)
    ∧ ((stuck b).readNext context v).run s = (Agent.recordNext v search.1.2, search.2)
    ∧ (Agent.recordNext v search.1.2).isComplete
  := by
  intro s b context v query search
  have hlength : (s.registry.store.visible (.ofName context.context) false).length = 2 := by
    decide +kernel
  obtain ⟨hturns, -, hread, hcomplete⟩ :=
    Agent.readNext_ends context s {b.oid} (searchesAmong_stuck b context s.registry.store) rfl v
  rw [hlength, Finset.card_singleton] at hturns hread hcomplete
  exact ⟨by decide +kernel, hturns, hread (by decide +kernel), hcomplete⟩

end Shelves

end MibAgent
