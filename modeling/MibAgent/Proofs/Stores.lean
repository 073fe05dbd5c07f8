import MibAgent.Proofs.Invariants
import MibAgent.Proofs.WriteResponse

/-!
# Stores

Objects are stores when the values of their instances change only as values are taken on and
undone: taking a value on saves the one before, and undoing brings back what was saved. A write
to stores writes all of its variables or leaves everything as it was.
-/

namespace MibAgent

variable {σ α : Type}

open AgentM (Keeps)

/-! ### Contents -/

namespace Contents

theorem set_set (c : Contents) (object : ObjectId) (oid : Oid) (value value' : Option Value) :
  (c.set object oid value).set object oid value' = c.set object oid value'
  := by
  funext other x
  simp only [set]
  split
  · rfl
  · rfl

theorem set_eq_self (c : Contents) (object : ObjectId) (oid : Oid) :
  c.set object oid (c object oid) = c
  := by
  funext other x
  rw [set]
  split
  · rename_i h
    rw [h.1, h.2]
  · rfl

end Contents

/-- Whether a call is what a store does to turn some contents into others. -/
def Call.Turns : Call → Contents → Contents → Prop
  | .apply object b result stored, c, c' =>
    if result = .ok then
      stored = c object b.oid ∧ c' = c.set object b.oid (some b.value)
    else c' = c
  | .undo object b stored result, c, c' => result = .ok ∧ c' = c.set object b.oid stored
  | _, c, c' => c' = c

/-- Calls made one after the other turn some contents into others. -/
inductive Turn : Contents → List Call → Contents → Prop where
  | nil {c : Contents} : Turn c [] c
  | cons {c c₁ c' : Contents} {call : Call} {rest : List Call}
    (first : call.Turns c c₁) (others : Turn c₁ rest c') :
    Turn c (call :: rest) c'

namespace Turn

variable {c c₁ c' : Contents} {calls others : List Call}

theorem append (h : Turn c calls c₁) (h' : Turn c₁ others c') :
  Turn c (calls ++ others) c'
  := by
  induction h with
  | nil => apply h'
  | cons first _ ih => apply Turn.cons first (ih h')

theorem of_append (h : Turn c (calls ++ others) c') :
  ∃ c₁, Turn c calls c₁ ∧ Turn c₁ others c'
  := by
  induction calls generalizing c with
  | nil => exact ⟨c, .nil, h⟩
  | cons call rest ih =>
      cases h with
      | cons first h =>
          obtain ⟨c₂, hrest, hothers⟩ := ih h
          exact ⟨c₂, .cons first hrest, hothers⟩

theorem single {call : Call} (h : call.Turns c c') :
  Turn c [call] c'
  := .cons h .nil

theorem of_single {call : Call} (h : Turn c [call] c') :
  call.Turns c c'
  := by
  cases h with
  | cons first others =>
      cases others with
      | nil => apply first

theorem of_nil (h : Turn c [] c') :
  c' = c
  := by
  cases h with
  | nil => rfl

/-- Calls that never change anything turn contents into themselves. -/
theorem of_idle (h : Turn c calls c')
    (hidle : ∀ call ∈ calls, ∀ c c', call.Turns c c' → c' = c) :
  c' = c
  := by
  induction h with
  | nil => rfl
  | cons first _ ih =>
      rw [List.forall_mem_cons] at hidle
      rw [ih hidle.2, hidle.1 _ _ first]

end Turn

/-! ### Stores -/

/-- A computation leaves contents as they are. -/
def AgentM.Leaves (contents : σ → Contents) (m : AgentM σ α) : Prop :=
  ∀ s, contents (m.run s).2.surroundings = contents s.surroundings

open AgentM (Leaves)

/-- Some objects of the agent are stores of contents, and nothing else that the agent calls
changes the contents. -/
structure Agent.Stores (a : Agent σ) (contents : σ → Contents) (objects : ObjectId → Prop) :
    Prop where
  access : ∀ check, Leaves contents (a.access check)
  considered : ∀ l entry query, Leaves contents ((a.lookupListener l).considered entry query)
  found : ∀ l entry query, Leaves contents ((a.lookupListener l).found entry query)
  rule : ∀ rule, a.refreshRule = some rule → ∀ object query, Leaves contents (rule object query)
  refresh : ∀ object update, (a.object object).refresh = some update →
    ∀ query, Leaves contents (update query)
  wait : ∀ owner object timeout, Leaves contents (a.wait owner object timeout)
  validate : ∀ object w, objects object → (a.object object).writable = some w →
    ∀ context b, Leaves contents (w.validate context b)
  /-- Taking a value on saves the one before. -/
  applied : ∀ object w, objects object → (a.object object).writable = some w →
    ∀ context b given s stored t, (w.apply context b given).run s = ((.ok, stored), t) →
      stored = contents s.surroundings object b.oid
        ∧ contents t.surroundings = (contents s.surroundings).set object b.oid (some b.value)
  /-- Failing to take a value on changes nothing. -/
  unapplied : ∀ object w, objects object → (a.object object).writable = some w →
    ∀ context b given s result stored t,
      (w.apply context b given).run s = ((result, stored), t) → result ≠ .ok →
        contents t.surroundings = contents s.surroundings
  commit : ∀ object w, objects object → (a.object object).writable = some w →
    ∀ context b, Leaves contents (w.commit context b)
  /-- Undoing succeeds and brings back what was saved. -/
  undo : ∀ object w, objects object → (a.object object).writable = some w →
    ∀ context b stored s, ((w.undo context b stored).run s).1 = .ok
      ∧ contents ((w.undo context b stored).run s).2.surroundings
        = (contents s.surroundings).set object b.oid stored
  cleanup : ∀ object w, objects object → (a.object object).writable = some w →
    ∀ context b, Leaves contents (w.cleanup context b)

/-- As far as only certain objects were called, the calls in the log have turned the contents at
the start into the contents now. -/
def Replays (contents : σ → Contents) (objects : ObjectId → Prop) (start : Contents)
    (s : AgentState (Logged σ Call)) : Prop :=
  (∀ call ∈ s.surroundings.log, objects call.object) →
    Turn start s.surroundings.log (contents s.surroundings.base)

namespace Agent.Stores

variable {contents : σ → Contents} {objects : ObjectId → Prop} {start : Contents}

theorem keeps_unnoted {m : AgentM σ α} (h : Leaves contents m) :
  Keeps (Replays contents objects start) m.unnoted
  := by
  constructor
  intro s hs hlog
  change ∀ call ∈ s.surroundings.log ++ [], objects call.object at hlog
  change Turn start (s.surroundings.log ++ []) (contents (m.run s.unlogged).2.surroundings)
  rw [List.append_nil] at hlog ⊢
  rw [h s.unlogged]
  apply hs hlog

theorem keeps_call (object : ObjectId) (m : AgentM σ α) (call : α → Call)
    (hobject : ∀ x, (call x).object = object)
    (h : objects object → ∀ s, (call (m.run s).1).Turns (contents s.surroundings)
      (contents (m.run s).2.surroundings)) :
  Keeps (Replays contents objects start) (m.noted fun _ x => [call x])
  := by
  constructor
  intro s hs hlog
  obtain ⟨hbefore, hcall⟩ := List.forall_mem_append.mp hlog
  rw [List.forall_mem_singleton, hobject] at hcall
  apply Turn.append (hs hbefore)
  apply Turn.single
  apply h hcall s.unlogged

theorem turn_apply {a : Agent σ} (h : a.Stores contents objects) {object : ObjectId}
    {w : Writable σ} (hobject : objects object)
    (hwritable : (a.object object).writable = some w) (context : RequestContext) (b : Binding)
    (given : Option Value) (s : AgentState σ) :
  let (result, t) := (w.apply context b given).run s
  (Call.apply object b result.1 result.2).Turns (contents s.surroundings) (contents t.surroundings)
  := by
  rcases hrun : (w.apply context b given).run s with ⟨⟨result, stored⟩, t⟩
  dsimp only [Call.Turns]
  by_cases hresult : result = .ok
  · subst hresult
    rw [if_pos rfl]
    apply h.applied object w hobject hwritable context b given s stored t hrun
  · rw [if_neg hresult]
    apply h.unapplied object w hobject hwritable context b given s result stored t hrun hresult

/-- The log of calls to stores always explains their contents. -/
theorem upholds {a : Agent σ} (h : a.Stores contents objects) :
  a.recorded.Upholds (Replays contents objects start)
  where
  locks := fun s locks hs => hs
  access check := keeps_unnoted (h.access check)
  considered l entry query := keeps_unnoted (h.considered l entry query)
  found l entry query := keeps_unnoted (h.found l entry query)
  rule := by
    intro rule hrule object query
    obtain ⟨rule, hrule', rfl⟩ := Option.map_eq_some_iff.mp hrule
    apply keeps_unnoted (h.rule rule hrule' object query)
  refresh := by
    intro object update hupdate query
    obtain ⟨update, hupdate', rfl⟩ := Option.map_eq_some_iff.mp hupdate
    apply keeps_unnoted (h.refresh object update hupdate' query)
  wait owner object timeout := keeps_unnoted (h.wait owner object timeout)
  validate := by
    intro object w hw context b
    obtain ⟨w, hw', rfl⟩ := Option.map_eq_some_iff.mp hw
    apply keeps_call object (w.validate context b) (.validate object b) fun _ => rfl
    intro hobject
    apply h.validate object w hobject hw'
  apply := by
    intro object w hw context b stored
    obtain ⟨w, hw', rfl⟩ := Option.map_eq_some_iff.mp hw
    apply keeps_call object (w.apply context b stored)
      (fun result => .apply object b result.1 result.2) fun _ => rfl
    intro hobject
    apply h.turn_apply hobject hw'
  commit := by
    intro object w hw context b
    obtain ⟨w, hw', rfl⟩ := Option.map_eq_some_iff.mp hw
    apply keeps_call object (w.commit context b) (.commit object b) fun _ => rfl
    intro hobject
    apply h.commit object w hobject hw'
  undo := by
    intro object w hw context b stored
    obtain ⟨w, hw', rfl⟩ := Option.map_eq_some_iff.mp hw
    apply keeps_call object (w.undo context b stored) (.undo object b stored) fun _ => rfl
    intro hobject
    apply h.undo object w hobject hw'
  cleanup := by
    intro object w hw context b
    obtain ⟨w, hw', rfl⟩ := Option.map_eq_some_iff.mp hw
    apply keeps_call object (w.cleanup context b) (fun _ => .cleanup object b) fun _ => rfl
    intro hobject
    apply h.cleanup object w hobject hw'

end Agent.Stores

/-! ### What the phases do to contents -/

theorem Agent.Meets.turns {a : Agent σ} {context : RequestContext} {healthy : Bool} {v : Variable}
    {s t : AgentState σ} {fate : Fate} (h : a.Meets context healthy v s fate t) {c c' : Contents}
    (hturn : Turn c (Preparation.calls ⟨v, fate⟩) c') :
  (fate.isApplied = false ∧ c' = c)
    ∨ ∃ target, fate = .applied target (c target.object v.binding.oid)
      ∧ c' = c.set target.object v.binding.oid (some v.binding.value)
  := by
  cases h with
  | refused _ =>
      left
      exact ⟨rfl, hturn.of_nil⟩
  | invalid _ _ _ | valid _ _ _ =>
      left
      exact ⟨rfl, hturn.of_single⟩
  | unapplied _ _ _ _ failed =>
      left
      cases hturn with
      | cons first others =>
          have happly := others.of_single
          rw [Call.Turns, if_neg failed, show _ = c from first] at happly
          exact ⟨rfl, happly⟩
  | @applied target _ _ _ _ _ _ _ _ _ =>
      right
      cases hturn with
      | cons first others =>
          have happly := others.of_single
          rw [Call.Turns, if_pos rfl, show _ = c from first] at happly
          use target, by rw [happly.1], happly.2

/-- Undoing in reverse order all values that were taken on brings the contents back. -/
theorem Agent.MeetAll.restored {a : Agent σ} {context : RequestContext} {healthy : Bool}
    {s t : AgentState σ} {stories : List Story}
    (h : a.MeetAll context healthy s (stories.map (·.toPreparation)) t)
    (hundone : ∀ story ∈ stories, story.fate.isApplied → story.undo.isSome) {c c₁ c' : Contents}
    (hprepare : Turn c (stories.flatMap (·.toPreparation.calls)) c₁)
    (hundo : Turn c₁ (stories.filterMap (·.undoCall?)).reverse c') :
  c' = c
  := by
  induction stories generalizing healthy s c c' with
  | nil =>
      rw [hundo.of_nil, hprepare.of_nil]
  | cons story rest ih =>
      rw [List.forall_mem_cons] at hundone
      obtain ⟨c₂, hfirst, hothers⟩ := hprepare.of_append
      rw [Story.undoCalls_cons] at hundo
      obtain ⟨c₃, hundoOthers, hundoFirst⟩ := hundo.of_append
      cases h with
      | cons first others =>
          -- what was done about the later variables has been undone before
          have hrest := ih others hundone.2 hothers hundoOthers
          subst hrest
          obtain ⟨⟨⟨v, fate⟩, commit⟩, undo⟩ := story
          rcases first.turns hfirst with ⟨hfate, rfl⟩ | ⟨target, hfate, rfl⟩
          · have hcall : Story.undoCall? ⟨⟨⟨v, fate⟩, commit⟩, undo⟩ = none := by
              cases fate with
              | applied _ _ => cases hfate
              | _ => rfl
            rw [hcall] at hundoFirst
            apply hundoFirst.of_nil
          · dsimp only at hfate
            subst hfate
            obtain ⟨result, rfl⟩ := Option.isSome_iff_exists.mp (hundone.1 rfl)
            obtain ⟨_, hc'⟩ := hundoFirst.of_single
            rw [hc', Contents.set_set, Contents.set_eq_self]

/-- A variable of the request is handled by an object. -/
def Request.Reaches (r : Request) (object : ObjectId) : Prop :=
  ∃ v ∈ r.vars.toList, ∃ target, v.target = some target ∧ target.object = object

/-- The variable addresses an instance of an object. -/
def Variable.addresses (v : Variable) (object : ObjectId) (oid : Oid) : Bool :=
  v.target.any (·.object == object) && v.binding.oid == oid

theorem Story.released_target {story : Story} (h : story.asked.IsFresh) (context : RequestContext) :
  (story.released context).target = story.fate.target?
  := undone_target h context

theorem Story.addresses_released {story : Story} (h : story.asked.IsFresh)
    (context : RequestContext) {target : Entry} {stored : Option Value}
    (hfate : story.fate = .applied target stored) (object : ObjectId) (oid : Oid) :
  (story.released context).addresses object oid
    ↔ object = target.object ∧ oid = story.asked.binding.oid
  := by
  rw [Variable.addresses, released_target h, hfate, story.released_binding, Fate.target?,
    Option.any_some, Bool.and_eq_true, beq_iff_eq, beq_iff_eq, eq_comm, @eq_comm _ oid]

/-- When all values are taken on, each instance gets the value of the last variable that
addresses it. -/
theorem Agent.MeetAll.stored {a : Agent σ} {context : RequestContext} {healthy : Bool}
    {s t : AgentState σ} {stories : List Story}
    (h : a.MeetAll context healthy s (stories.map (·.toPreparation)) t)
    (happlied : ∀ story ∈ stories, story.fate.isApplied)
    (hfresh : ∀ story ∈ stories, story.asked.IsFresh) {c c' : Contents}
    (hprepare : Turn c (stories.flatMap (·.toPreparation.calls)) c') (object : ObjectId)
    (oid : Oid) :
  c' object oid
    = (((stories.map (·.released context)).reverse.find? (·.addresses object oid)).map
        (·.binding.value)).or (c object oid)
  := by
  induction stories generalizing healthy s c with
  | nil =>
      rw [hprepare.of_nil]
      rfl
  | cons story rest ih =>
      rw [List.forall_mem_cons] at happlied hfresh
      obtain ⟨c₁, hfirst, hothers⟩ := hprepare.of_append
      cases h with
      | cons first others =>
          rw [ih others happlied.2 hfresh.2 hothers, List.map_cons, List.reverse_cons,
            List.find?_append]
          cases (rest.map (·.released context)).reverse.find? (·.addresses object oid) with
          | some later => rfl
          | none =>
              -- no later variable addresses the instance, so the first one decides
              rcases first.turns hfirst with ⟨hfate, _⟩ | ⟨target, hfate, rfl⟩
              · rw [happlied.1] at hfate
                cases hfate
              · have haddresses := Story.addresses_released hfresh.1 context hfate object oid
                rw [Option.none_or, Option.map_none, Option.none_or, Contents.set,
                  List.find?_singleton]
                by_cases hhere : object = target.object ∧ oid = story.asked.binding.oid
                · rw [if_pos hhere, if_pos (haddresses.mpr hhere), hhere.1, hhere.2,
                    Option.map_some, story.released_binding]
                  rfl
                · rw [if_neg hhere, if_neg (mt haddresses.mp hhere)]
                  rfl

namespace Story

theorem eq_of_commitCall? {story : Story} {call : Call} (h : story.commitCall? = some call)
    {c c' : Contents} (hturns : call.Turns c c') :
  c' = c
  := by
  rw [Settlement.commitCall?] at h
  split at h
  · obtain ⟨result, _, rfl⟩ := Option.map_eq_some_iff.mp h
    apply hturns
  · cases h

theorem eq_of_cleanupCall? {story : Story} {call : Call} (h : story.cleanupCall? = some call)
    {c c' : Contents} (hturns : call.Turns c c') :
  c' = c
  := by
  rw [cleanupCall?] at h
  split at h
  · obtain ⟨target, _, rfl⟩ := Option.map_eq_some_iff.mp h
    apply hturns
  · cases h

/-- Only preparing and undoing variables changes contents. -/
theorem turn_calls {stories : List Story} {c c' : Contents} (h : Turn c (calls stories) c') :
  ∃ c₁, Turn c (stories.flatMap (·.toPreparation.calls)) c₁
    ∧ Turn c₁ (stories.filterMap (·.undoCall?)).reverse c'
  := by
  obtain ⟨c₃, h, hcleanup⟩ := h.of_append
  obtain ⟨c₂, h, hundo⟩ := h.of_append
  obtain ⟨c₁, hprepare, hcommit⟩ := h.of_append
  have hc₂ : c₂ = c₁ := by
    apply hcommit.of_idle
    intro call hcall c c' hturns
    obtain ⟨story, _, hstory⟩ := List.mem_filterMap.mp hcall
    apply eq_of_commitCall? hstory hturns
  have hc' : c' = c₃ := by
    apply hcleanup.of_idle
    intro call hcall c c' hturns
    obtain ⟨story, _, hstory⟩ := List.mem_filterMap.mp hcall
    apply eq_of_cleanupCall? hstory hturns
  rw [hc₂] at hundo
  rw [hc']
  exact ⟨c₁, hprepare, hundo⟩

end Story

/-! ### Objects that are called -/

theorem Preparation.target_of_mem_calls {p : Preparation} {call : Call} (h : call ∈ p.calls) :
  ∃ target, p.fate.target? = some target ∧ target.object = call.object
  := by
  obtain ⟨v, fate⟩ := p
  cases fate with
  | refused _ _ => cases h
  | invalid target _ | valid target =>
      rw [List.mem_singleton.mp h]
      exact ⟨target, rfl, rfl⟩
  | unapplied target _ _ | applied target _ =>
      rcases List.mem_pair.mp h with rfl | rfl
      · exact ⟨target, rfl, rfl⟩
      · exact ⟨target, rfl, rfl⟩

namespace Story

variable {story : Story} {call : Call}

theorem target_of_commitCall? (h : story.commitCall? = some call) :
  ∃ target, story.fate.target? = some target ∧ target.object = call.object
  := by
  obtain ⟨⟨⟨v, fate⟩, commit⟩, undo⟩ := story
  cases fate with
  | applied target _ =>
      obtain ⟨_, _, rfl⟩ := Option.map_eq_some_iff.mp h
      exact ⟨target, rfl, rfl⟩
  | _ => cases h

theorem target_of_undoCall? (h : story.undoCall? = some call) :
  ∃ target, story.fate.target? = some target ∧ target.object = call.object
  := by
  obtain ⟨⟨⟨v, fate⟩, commit⟩, undo⟩ := story
  cases fate with
  | applied target _ =>
      obtain ⟨_, _, rfl⟩ := Option.map_eq_some_iff.mp h
      exact ⟨target, rfl, rfl⟩
  | _ => cases h

theorem target_of_cleanupCall? (h : story.cleanupCall? = some call) :
  ∃ target, story.fate.target? = some target ∧ target.object = call.object
  := by
  rw [cleanupCall?] at h
  split at h
  · rename_i hvalid
    obtain ⟨target, hreceiver, hfound⟩ := Fate.exists_receiver hvalid
    rw [hreceiver] at h
    cases h
    exact ⟨target, hfound, rfl⟩
  · cases h

/-- Only objects found for the variables are called. -/
theorem target_of_mem_calls {stories : List Story} (h : call ∈ calls stories) :
  ∃ story ∈ stories, ∃ target, story.fate.target? = some target ∧ target.object = call.object
  := by
  simp only [calls, List.mem_append, List.mem_reverse, List.mem_flatMap, List.mem_filterMap] at h
  rcases h with ((⟨story, hstory, h⟩ | ⟨story, hstory, h⟩) | ⟨story, hstory, h⟩)
    | ⟨story, hstory, h⟩
  · exact ⟨story, hstory, Preparation.target_of_mem_calls h⟩
  · exact ⟨story, hstory, target_of_commitCall? h⟩
  · exact ⟨story, hstory, target_of_undoCall? h⟩
  · exact ⟨story, hstory, target_of_cleanupCall? h⟩

end Story

theorem Request.reaches_of_mem_calls (r : Request) {stories : List Story} {call : Call}
    (hfresh : ∀ story ∈ stories, story.asked.IsFresh) (h : call ∈ Story.calls stories) :
  (r.written stories).Reaches call.object
  := by
  obtain ⟨story, hstory, target, htarget, hobject⟩ := Story.target_of_mem_calls h
  have hreleased := Story.released_target (hfresh story hstory) r.context
  rw [htarget] at hreleased
  use story.released r.context
  constructor
  · apply List.mem_map_of_mem hstory
  · use target, hreleased, hobject

namespace Agent

variable {a : Agent σ} {contents : σ → Contents}

/-- The calls of a write to stores tell what becomes of their contents. -/
theorem Stores.turn_write {r : Request} {stories : List Story} {s t : AgentState σ}
    (h : a.Stores contents (r.written stories).Reaches)
    (hfresh : ∀ story ∈ stories, story.asked.IsFresh)
    (hruns : Runs (a.write r) (a.recorded.write r) s (r.written stories) t
      (Story.calls stories)) :
  Turn (contents s.surroundings) (Story.calls stories) (contents t.surroundings)
  := by
  have hupholds : a.recorded.Upholds
      (Replays contents (r.written stories).Reaches (contents s.surroundings)) := h.upholds
  have hreplays := (hupholds.keeps_write r).keeps (s.logged []) fun _ => .nil
  rw [hruns.logged] at hreplays
  apply hreplays
  intro call hcall
  apply r.reaches_of_mem_calls hfresh hcall

/-- A request that sets variables of stores sets all of them, the last value for an instance
prevailing, or none. -/
theorem set_all_or_nothing (context : RequestContext) (transaction : Nat) {pdu : Pdu}
    (maxSize : Nat) (hset : pdu.operation = .set) {s t : AgentState σ} {r : Request}
    (hrun : (a.perform (.create context transaction pdu maxSize)).run s = (r, t))
    (hstores : a.Stores contents r.Reaches) :
  (r.status ≠ .noError → contents t.surroundings = contents s.surroundings)
    ∧ (r.status = .noError →
        (r.bindings = pdu.bindings ∧ ∀ v ∈ r.vars.toList, v.target.isSome)
          ∧ ∀ object oid, contents t.surroundings object oid
              = ((r.vars.toList.reverse.find? (·.addresses object oid)).map
                  (·.binding.value)).or (contents s.surroundings object oid))
  := by
  obtain ⟨stories, t', hasked, hwrites, hruns⟩ :=
    write_runs a _ (Request.isFresh_create_set context transaction maxSize hset) s
  rw [Request.vars_create_set context transaction maxSize hset] at hasked
  have hfresh := Request.isFresh_of_asked hasked
  rw [perform_create_set a context transaction maxSize hset, hruns.plain] at hrun
  obtain ⟨rfl, rfl⟩ := Prod.mk.inj hrun
  have hturn := hstores.turn_write hfresh hruns
  obtain ⟨c₁, hprepare, hundo⟩ := Story.turn_calls hturn
  obtain ⟨t₁, hmeet⟩ := hwrites.prepared
  have hstatus := Request.status_written_eq_noError_iff context transaction maxSize hasked
  rw [hwrites.find?_eq_none_iff] at hstatus
  constructor
  · intro herror
    obtain ⟨failed, hmem, hfailed⟩ : ∃ failed ∈ stories, failed.hasFailed := by
      simpa using mt hstatus.mpr herror
    apply hmeet.restored _ hprepare hundo
    intro story hstory happlied
    rw [hwrites.undone story hstory]
    exact ⟨happlied, failed, hmem, hfailed⟩
  · intro hnone
    have hdone := hwrites.committed_of_no_failure (hstatus.mp hnone)
    have hcalls : stories.filterMap (·.undoCall?) = [] := by
      rw [List.filterMap_eq_nil_iff]
      intro story hstory
      obtain ⟨_, _, hundone⟩ := hdone story hstory
      rw [Story.undoCall?, hundone]
      split <;> rfl
    rw [hcalls, List.reverse_nil] at hundo
    rw [hundo.of_nil]
    refine ⟨⟨Request.bindings_written context transaction maxSize hasked, ?_⟩, ?_⟩
    · rw [Request.written, List.forall_mem_map]
      intro story hstory
      obtain ⟨target, stored, hfate⟩ := Fate.eq_applied (hdone story hstory).1
      rw [Story.released_target (hfresh story hstory), hfate]
      rfl
    · intro object oid
      apply hmeet.stored (fun story hstory => (hdone story hstory).1) hfresh hprepare

end Agent

/-! ### Keepers -/

namespace Keepers

theorem run_apply (verdicts : Verdicts) (object : ObjectId) (context : RequestContext)
    (b : Binding) (given : Option Value) (s : AgentState Contents) :
  ((writable verdicts object).apply context b given).run s
    = if (verdicts.apply b.oid).isOk then
        ((verdicts.apply b.oid, s.surroundings object b.oid),
          { s with surroundings := s.surroundings.set object b.oid b.value })
      else ((verdicts.apply b.oid, given), s)
  := by
  simp only [writable]
  split
  · rfl
  · rfl

/-- Keepers that never refuse to undo are stores. -/
theorem stores_agent (verdicts : Verdicts) (hundo : ∀ oid, verdicts.undo oid = .ok)
    (objects : ObjectId → Prop) :
  (agent verdicts).Stores id objects
  where
  access _ _ := rfl
  considered _ _ _ _ := rfl
  found _ _ _ _ := rfl
  rule := nofun
  refresh := nofun
  wait _ _ _ _ := rfl
  validate := by
    rintro object w _ ⟨⟩ context b s
    rfl
  applied := by
    rintro object w _ ⟨⟩ context b given s stored t hrun
    rw [run_apply] at hrun
    split at hrun
    · obtain ⟨hresult, rfl⟩ := Prod.mk.inj hrun
      obtain ⟨_, rfl⟩ := Prod.mk.inj hresult
      exact ⟨rfl, rfl⟩
    · rename_i hok
      rw [(Prod.mk.inj (Prod.mk.inj hrun).1).1] at hok
      contradiction
  unapplied := by
    rintro object w _ ⟨⟩ context b given s result stored t hrun hresult
    rw [run_apply] at hrun
    split at hrun
    · rename_i hok
      rw [(Prod.mk.inj (Prod.mk.inj hrun).1).1] at hok
      apply absurd (eq_of_beq hok) hresult
    · cases hrun
      rfl
  commit := by
    rintro object w _ ⟨⟩ context b s
    rfl
  undo := by
    rintro object w _ ⟨⟩ context b stored s
    have hrun : ((writable verdicts object).undo context b stored).run s
        = (.ok, { s with surroundings := s.surroundings.set object b.oid stored }) := by
      simp only [writable, hundo b.oid]
      rfl
    rw [hrun]
    exact ⟨rfl, rfl⟩
  cleanup := by
    rintro object w _ ⟨⟩ context b s
    rfl

end Keepers

/-- A pair of which the second value is found invalid leaves the keepers as they were, and a pair
of valid values is kept. -/
theorem Agent.pair_all_or_nothing :
  let request := Request.create Keepers.requester 1 Keepers.pair 484
  let failed := ((Keepers.agent Keepers.choosy).perform request).run Keepers.ready
  let done := ((Keepers.agent {}).perform request).run Keepers.ready
  (failed.1.status = .wrongValue ∧ failed.2.surroundings = Keepers.ready.surroundings)
    ∧ done.1.status = .noError
    ∧ ∀ object oid, done.2.surroundings object oid
        = ((done.1.vars.toList.reverse.find? (·.addresses object oid)).map
            (·.binding.value)).or (Keepers.ready.surroundings object oid)
  := by
  intro request failed done
  have hrun : ((Keepers.agent Keepers.choosy).perform request).run Keepers.ready
      = (failed.1, failed.2) := rfl
  have hrun' : ((Keepers.agent {}).perform request).run Keepers.ready
      = (done.1, done.2) := rfl
  have hfailed := (set_all_or_nothing Keepers.requester 1 484 rfl hrun
    (Keepers.stores_agent Keepers.choosy (fun _ => rfl) _)).1
  have hdone := (set_all_or_nothing Keepers.requester 1 484 rfl hrun'
    (Keepers.stores_agent {} (fun _ => rfl) _)).2
  have hstatus : failed.1.status = .wrongValue := by decide +kernel
  have hstatus' : done.1.status = .noError := by decide +kernel
  refine ⟨⟨hstatus, hfailed ?_⟩, hstatus', (hdone hstatus').2⟩
  rw [hstatus]
  nofun

end MibAgent
