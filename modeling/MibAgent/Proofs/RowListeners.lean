import MibAgent.Agent.Registration
import MibAgent.Proofs.Registrations
import Mathlib.Data.List.Dedup

/-!
# Listeners of rows

A listener of rows is handed to the tables registration by registration. A table that is registered
in several contexts is therefore handed the listener as often as it is registered, and tells it about
a row as often. When the listener is withdrawn, a table loses it once for each registration that it
has by then: the listener stays with a table that lost registrations in the meantime.
-/

namespace MibAgent

variable {σ : Type}

namespace Agent

variable (a : Agent σ)

/-- Whether an object tells about the rows of a table. -/
def isTable (object : ObjectId) : Bool := (a.object object).table.isSome

/-- The tables that are registered, each of them as often as it is. -/
def tablesAmong (entries : List Entry) : List ObjectId :=
  (entries.map (·.object)).filter a.isTable

/-- Every table keeps the listeners of its rows in a list, which nobody else changes; `rows` shows
the lists. -/
structure ListsRowListeners (rows : AgentState σ → ObjectId → List ListenerId) : Prop where
  add : ∀ object table, (a.object object).table = some table → ∀ listener s,
    rows ((table.addListener listener).run s).2
      = Function.update (rows s) object (rows s object ++ [listener])
  remove : ∀ object table, (a.object object).table = some table → ∀ listener s,
    rows ((table.removeListener listener).run s).2
      = Function.update (rows s) object ((rows s object).erase listener)

variable {a}

theorem tablesAmong_cons_of_none {entry : Entry} (h : (a.object entry.object).table = none)
    (rest : List Entry) :
  a.tablesAmong (entry :: rest) = a.tablesAmong rest
  := by
  have hnone : a.isTable entry.object = false := by
    rw [isTable, h]
    rfl
  rw [tablesAmong, List.map_cons, List.filter_cons, hnone]
  rfl

theorem tablesAmong_cons_of_some {entry : Entry} {table : TableObject σ}
    (h : (a.object entry.object).table = some table) (rest : List Entry) :
  a.tablesAmong (entry :: rest) = entry.object :: a.tablesAmong rest
  := by
  have hsome : a.isTable entry.object = true := by
    rw [isTable, h]
    rfl
  rw [tablesAmong, List.map_cons, List.filter_cons, hsome]
  rfl

namespace ListsRowListeners

variable {rows : AgentState σ → ObjectId → List ListenerId} (h : a.ListsRowListeners rows)
include h

/-- The listener joins the list of a table once for each registration of the table. -/
theorem listenToRows_spec (listener : ListenerId) (entries : List Entry) (s : AgentState σ) :
  ((a.listenToRows listener entries).run s).1 = (a.tablesAmong entries).length
    ∧ ∀ object, rows ((a.listenToRows listener entries).run s).2 object
        = rows s object ++ List.replicate ((a.tablesAmong entries).count object) listener
  := by
  induction entries generalizing s with
  | nil =>
      use rfl
      intro object
      exact (List.append_nil _).symm
  | cons entry rest ih =>
      rw [listenToRows]
      cases htable : (a.object entry.object).table with
      | none =>
          rw [tablesAmong_cons_of_none htable]
          apply ih
      | some table =>
          obtain ⟨hlength, hrows⟩ := ih ((table.addListener listener).run s).2
          rw [tablesAmong_cons_of_some htable]
          constructor
          · rw [List.length_cons, ← hlength]
            rfl
          · intro object
            have hafter := hrows object
            rw [h.add entry.object table htable, Function.update_apply] at hafter
            apply hafter.trans
            by_cases hobject : object = entry.object
            · rw [if_pos hobject, hobject, List.count_cons_self, List.replicate_succ,
                List.append_assoc]
              rfl
            · rw [if_neg hobject, List.count_cons_of_ne (Ne.symm hobject)]

/-- A table loses the listener once for each registration of the table. -/
theorem ignoreRows_spec (listener : ListenerId) (entries : List Entry) (s : AgentState σ)
    (object : ObjectId) :
  (rows ((a.ignoreRows listener entries).run s).2 object).count listener
    = (rows s object).count listener - (a.tablesAmong entries).count object
  := by
  induction entries generalizing s with
  | nil => rfl
  | cons entry rest ih =>
      rw [ignoreRows]
      cases htable : (a.object entry.object).table with
      | none =>
          rw [tablesAmong_cons_of_none htable]
          apply ih
      | some table =>
          rw [tablesAmong_cons_of_some htable]
          have hafter := ih ((table.removeListener listener).run s).2
          rw [h.remove entry.object table htable, Function.update_apply] at hafter
          apply hafter.trans
          by_cases hobject : object = entry.object
          · rw [if_pos hobject, hobject, List.count_cons_self, List.count_erase_self, Nat.sub_sub,
              Nat.add_comm]
          · rw [if_neg hobject, List.count_cons_of_ne (Ne.symm hobject)]

end ListsRowListeners

/-- When a listener that no table knows is added, each table gets it as often as the table is
registered, and the answer is the number of these registrations. So the listener is known once to
each registered table, and the answer is the number of these tables, exactly if no table is
registered twice. Whatever else becomes of the registrations, a table loses the listener as often as
it is registered when the listener is removed: the listener is gone exactly if the table has no fewer
registrations by then. -/
theorem row_listeners_by_registration (a : Agent σ) (rows : AgentState σ → ObjectId → List ListenerId)
    (h : a.ListsRowListeners rows) (listener : ListenerId) (s : AgentState σ)
    (hnew : ∀ object, listener ∉ rows s object) :
  let tables := a.tablesAmong s.registry.store.entries
  let added := (a.addRowListener listener).run s
  added.1 = tables.length
    ∧ (∀ object, rows added.2 object
        = rows s object ++ List.replicate (tables.count object) listener)
    ∧ (tables.Nodup ↔ added.1 = tables.dedup.length
        ∧ ∀ object ∈ tables, (rows added.2 object).count listener = 1)
    ∧ ∀ u : AgentState σ, rows u = rows added.2 →
        ∀ object, listener ∉ rows ((a.removeRowListener listener).run u).2 object
          ↔ tables.count object ≤ (a.tablesAmong u.registry.store.entries).count object
  := by
  intro tables added
  have hadded : added.1 = tables.length ∧ ∀ object, rows added.2 object
      = rows s object ++ List.replicate (tables.count object) listener :=
    h.listenToRows_spec listener s.registry.store.entries s
  obtain ⟨hlength, hrows⟩ := hadded
  have hcount : ∀ object, (rows added.2 object).count listener = tables.count object := by
    intro object
    rw [hrows, List.count_append, List.count_eq_zero_of_not_mem (hnew object), Nat.zero_add,
      List.count_replicate_self]
  refine ⟨hlength, hrows, ?_, ?_⟩
  · constructor
    · intro hnodup
      constructor
      · rw [hnodup.dedup]
        apply hlength
      · intro object hobject
        rw [hcount]
        apply List.count_eq_one_of_mem hnodup hobject
    · rintro ⟨-, honce⟩
      apply List.nodup_iff_count_le_one.mpr
      intro object
      by_cases hobject : object ∈ tables
      · rw [← hcount, honce object hobject]
      · rw [List.count_eq_zero_of_not_mem hobject]
        apply Nat.zero_le
  · intro u hu object
    have hleft := h.ignoreRows_spec listener u.registry.store.entries u object
    rw [hu, hcount] at hleft
    rw [← List.count_eq_zero]
    apply (Eq.congr_left hleft).trans
    apply Nat.sub_eq_zero_iff_le

end Agent

namespace Tables

/-- The surroundings show who is told about the rows of each table. -/
abbrev RowLists := ObjectId → List ListenerId

/-- Others are told about the rows of a table from now on. -/
def tell (object : ObjectId) (listeners : List ListenerId) : AgentM RowLists Unit :=
  modify fun s => { s with surroundings := Function.update s.surroundings object listeners }

/-- A table that keeps its listeners in the surroundings. -/
def table (object : ObjectId) : TableObject RowLists where
  addListener listener := do
    let listeners := (← get).surroundings object
    tell object (listeners ++ [listener])
  removeListener listener := do
    let listeners := (← get).surroundings object
    tell object (listeners.erase listener)
    return listeners.contains listener

/-- An agent of tables without values, which serve the subtree with the number of the object as its
only arc. -/
def agent : Agent RowLists where
  object i :=
    { scope := return .subtree ⟨[.ofNat i]⟩
      get := fun _ _ => return .noSuchInstance
      next := fun _ _ => return .endOfView
      table := some (table i) }
  lookupListener _ := {}
  contextListener _ _ _ := pure ()
  refreshRule := none
  access _ := return true
  wait _ _ _ := return .over
  config := {}
  searchLimit := 4294967296

theorem listsRowListeners_agent :
  agent.ListsRowListeners fun s => s.surroundings
  where
  add := by
    rintro object table ⟨⟩ listener s
    rfl
  remove := by
    rintro object table ⟨⟩ listener s
    rfl

/-- The registration of the first table in a context. -/
def registered (c : Context) : Entry := ⟨⟨c, .subtree ⟨[1]⟩⟩, 1⟩

/-- The name of a context. -/
def name : Octets := [99]

/-- The state in which the first table is registered in two contexts. -/
def twice : AgentState RowLists where
  registry := { Registry.ofContexts [name] with
    store := .after [.register (registered none), .register (registered (some name))] }
  inFlight := .empty
  now := 0
  lastTransaction := 0
  surroundings := fun _ => []

end Tables

/-- A listener is added when the only table is registered twice and removed when it is registered
once. It is told twice about a row in between, and once afterwards. -/
theorem Agent.row_listener_stays :
  let added := (Tables.agent.addRowListener 7).run Tables.twice
  let u : AgentState Tables.RowLists := { added.2 with
    registry := { added.2.registry with store := .after [.register (Tables.registered none)] } }
  added.1 = 2 ∧ added.2.surroundings 1 = [7, 7]
    ∧ 7 ∈ ((Tables.agent.removeRowListener 7).run u).2.surroundings 1
  := by
  intro added u
  have htables : Tables.agent.tablesAmong Tables.twice.registry.store.entries = [1, 1] := by
    decide +kernel
  have hfewer : (Tables.agent.tablesAmong u.registry.store.entries).count 1 = 1 := by
    decide +kernel
  obtain ⟨hlength, hrows, -, hremoved⟩ := row_listeners_by_registration Tables.agent _
    Tables.listsRowListeners_agent 7 Tables.twice (fun _ => List.not_mem_nil)
  rw [htables] at hlength hremoved
  refine ⟨hlength, ?_, ?_⟩
  · apply (hrows 1).trans
    rw [htables]
    rfl
  · apply Classical.not_not.mp
    intro hgone
    have hle := (hremoved u rfl 1).mp hgone
    rw [hfewer] at hle
    apply absurd hle (by decide)

/-- A table that is registered in two contexts gets a listener twice. When it loses one of its
registrations before the listener is removed, it keeps the listener, although it is registered. -/
theorem Agent.table_keeps_listener :
  let added := (Tables.agent.addRowListener 7).run Tables.twice
  let lessened := ((Tables.agent.unregister 1 (some Tables.name)).run added.2).2
  let removed := (Tables.agent.removeRowListener 7).run lessened
  Tables.twice.IsReachable ∧ Tables.twice.registry.store.entries.map (·.object) = [1, 1]
    ∧ added.1 = 2 ∧ added.2.surroundings 1 = [7, 7]
    ∧ removed.2.registry.store.hasObject 1 ∧ removed.2.surroundings 1 = [7]
  := by
  refine ⟨⟨_, rfl⟩, ?_⟩
  decide +kernel

end MibAgent
