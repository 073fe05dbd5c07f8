import MibAgent.Proofs.LockHistories
import MibAgent.Proofs.SingleReads

/-!
# What a requester sees

A search passes over the instances that the requester may not read. On its way it may ask the same
object again, or go on to the next registration, where a denied instance is; but what it comes to
depends only on what the requester may be given. The same holds when objects are locked by someone
else, as long as nothing happens to the locks while the agent waits for them.
-/

namespace MibAgent

open AgentM (IsQuiet Gives)
open Agent (NextOutcome NextStep queryFor isUnspeakable recordNext)

variable {σ : Type}

/-! ### After a denied instance -/

namespace Scope

variable {range s : Scope} {x : Oid}

theorem past_restart :
  (range.restart x).past s = range.past s
  := by
  rw [past, past]
  cases s.upper with
  | none => rfl
  | some upper => rfl

/-- When a scope ends with an OID, what is past the scope is what comes after the OID. -/
theorem past_eq_restart (hx : s.contains x) (hfinish : s.finish ≤ .beside x true) :
  range.past s = .ok (range.restart x)
  := by
  have hlt := (contains_iff.mp hx).2
  rw [past]
  rw [finish] at hlt hfinish
  cases hupper : s.upper with
  | none =>
      rw [hupper] at hfinish
      apply absurd Cut.beside_lt_top hfinish.not_gt
  | some upper =>
      obtain ⟨y, included⟩ := upper
      rw [hupper] at hlt hfinish
      change Cut.beside x false < Cut.beside y included at hlt
      change Cut.beside y included ≤ Cut.beside x true at hfinish
      rcases Cut.beside_lt_beside.mp hlt with hxy | ⟨rfl, hincluded⟩
      · rw [← not_lt, Cut.beside_lt_beside] at hfinish
        apply absurd (.inl hxy) hfinish
      · rw [(Bool.lt_iff.mp hincluded).2]
        rfl

end Scope

namespace Circumstances

variable {c : Circumstances} {range : Scope} {e : Entry} {x : Oid}

/-- The first registration in a range is the first one after an OID of the range as well, as long
as it overlaps what comes after the OID. -/
theorem first_restart (h : c.store.IsOrderly) (hrange : range.upper = none)
    (hfirst : c.first range = some e) (hx : range.contains x)
    (hoverlaps : e.scope.scope.overlaps (range.restart x)) :
  c.first (range.restart x) = some e
  := by
  obtain ⟨he, -, hleast⟩ := (first_eq_some_iff h).mp hfirst
  apply (first_eq_some_iff h).mpr
  use he, hoverlaps
  intro e' he' hoverlaps'
  apply hleast e' he'
  have hrestart : (range.restart x).upper = none := hrange
  rw [Scope.overlaps_iff_of_unbounded (inhabited h he') hrestart] at hoverlaps'
  rw [Scope.overlaps_iff_of_unbounded (inhabited h he') hrange]
  apply ((Scope.contains_iff_of_unbounded hrange).mp hx).trans hoverlaps'

/-- Otherwise the search goes on after the OID as it would go on past the registration. -/
theorem past_of_not_overlaps (h : c.store.IsOrderly) (hrange : range.upper = none)
    (he : e ∈ c.visible) (hx : e.scope.scope.contains x)
    (hoverlaps : e.scope.scope.overlaps (range.restart x) = false) :
  range.past e.scope.scope = .ok (range.restart x)
  := by
  have hrestart : (range.restart x).upper = none := hrange
  apply Scope.past_eq_restart hx
  rw [← Bool.not_eq_true, Scope.overlaps_iff_of_unbounded (inhabited h he) hrestart,
    not_lt] at hoverlaps
  apply hoverlaps

end Circumstances

/-! ### Sights -/

/-- What a requester sees of the objects in a context. -/
structure Sight where
  /-- The first registration in a range. -/
  first : Scope → Option Entry
  readable : Oid → Bool
  /-- Whether a value can be given in the version of the protocol. -/
  speakable : Value → Bool
  /-- The values of the instances that may be read. -/
  value? : ObjectId → Oid → Option Value
  readable_of_value? : ∀ object x v, value? object x = some v → readable x
  /-- Whether nobody else holds the lock on an object. -/
  free : ObjectId → Bool

namespace Sight

/-- A search may come upon an instance of an object. -/
def Offers (v : Sight) (object : ObjectId) (b : Binding) : Prop :=
  v.value? object b.oid = some b.value ∧ v.speakable b.value

theorem Offers.eq_of_oid {v : Sight} {object : ObjectId} {b b' : Binding} (h : v.Offers object b)
    (h' : v.Offers object b') (hoid : b.oid = b'.oid) :
  b = b'
  := by
  obtain ⟨x, w⟩ := b
  obtain ⟨x', w'⟩ := b'
  cases hoid
  cases h.1.symm.trans h'.1
  rfl

/-- What a requester sees of a registration in a range. -/
inductive Glimpse where
  /-- Someone else holds the lock on the object. -/
  | locked
  /-- The first instance that a search may come upon. -/
  | shows (b : Binding)
  /-- There is no instance that a search may come upon. -/
  | lacks

/-- What the requester sees of an object in a range. -/
inductive Glimpses (v : Sight) (object : ObjectId) (range : Scope) : Glimpse → Prop where
  | locked (locked : v.free object = false) : Glimpses v object range .locked
  | shows {b : Binding} (free : v.free object) (offers : v.Offers object b)
    (inside : range.contains b.oid)
    (least : ∀ b', v.Offers object b' → range.contains b'.oid → b.oid ≤ b'.oid) :
    Glimpses v object range (.shows b)
  | lacks (free : v.free object)
    (outside : ∀ b, v.Offers object b → range.contains b.oid = false) :
    Glimpses v object range .lacks

theorem Glimpses.eq {v : Sight} {object : ObjectId} {range : Scope} {g g' : Glimpse}
    (h : v.Glimpses object range g) (h' : v.Glimpses object range g') :
  g = g'
  := by
  cases h with
  | locked locked =>
      cases h' with
      | locked _ => rfl
      | shows free | lacks free => cases locked.symm.trans free
  | shows free offers inside least =>
      cases h' with
      | locked locked => cases locked.symm.trans free
      | shows _ offers' inside' least' =>
          rw [offers.eq_of_oid offers'
            (le_antisymm (least _ offers' inside') (least' _ offers inside))]
      | lacks _ outside => cases inside.symm.trans (outside _ offers)
  | lacks free outside =>
      cases h' with
      | locked locked => cases locked.symm.trans free
      | shows _ offers inside => cases inside.symm.trans (outside _ offers)
      | lacks _ _ => rfl

/-- What a search in a range comes to. -/
inductive Sees (v : Sight) : Scope → NextOutcome → Prop where
  | nothing {range : Scope} (first : v.first range = none) : Sees v range .endOfView
  | unavailable {range : Scope} {e : Entry} (first : v.first range = some e)
    (glimpse : v.Glimpses e.object range .locked) : Sees v range (.unavailable e)
  | found {range : Scope} {e : Entry} {query : Query} {b : Binding}
    (first : v.first range = some e) (glimpse : v.Glimpses e.object range (.shows b)) :
    Sees v range (.found e query b)
  | ended {range : Scope} {e : Entry} {fault : ScopeFault} (first : v.first range = some e)
    (glimpse : v.Glimpses e.object range .lacks) (past : range.past e.scope.scope = .error fault) :
    Sees v range .endOfView
  | passed {range beyond : Scope} {e : Entry} {o : NextOutcome}
    (first : v.first range = some e) (glimpse : v.Glimpses e.object range .lacks)
    (past : range.past e.scope.scope = .ok beyond) (rest : Sees v beyond o) : Sees v range o

/-- How a search goes on from what is seen of a registration. -/
def GoesOn (v : Sight) (range : Scope) (e : Entry) : Glimpse → NextOutcome → Prop
  | .locked, o => o = .unavailable e
  | .shows b, o => ∃ query, o = .found e query b
  | .lacks, o =>
    match range.past e.scope.scope with
    | .error _ => o = .endOfView
    | .ok beyond => v.Sees beyond o

variable {v : Sight} {range : Scope} {e : Entry} {o o' : NextOutcome}

/-- What a search comes to depends on what is seen of the first registration in its range. -/
theorem sees_iff (hfirst : v.first range = some e) :
  v.Sees range o ↔ ∃ g, v.Glimpses e.object range g ∧ v.GoesOn range e g o
  := by
  constructor
  · intro h
    cases h with
    | nothing first => cases first.symm.trans hfirst
    | unavailable first glimpse =>
        cases first.symm.trans hfirst
        exact ⟨_, glimpse, rfl⟩
    | found first glimpse =>
        cases first.symm.trans hfirst
        exact ⟨_, glimpse, _, rfl⟩
    | ended first glimpse past =>
        cases first.symm.trans hfirst
        refine ⟨_, glimpse, ?_⟩
        rw [GoesOn, past]
    | passed first glimpse past rest =>
        cases first.symm.trans hfirst
        refine ⟨_, glimpse, ?_⟩
        rw [GoesOn, past]
        exact rest
  · rintro ⟨g, glimpse, hgoes⟩
    cases g with
    | locked =>
        rw [hgoes]
        apply Sees.unavailable hfirst glimpse
    | shows b =>
        obtain ⟨query, rfl⟩ := hgoes
        apply Sees.found hfirst glimpse
    | lacks =>
        rw [GoesOn] at hgoes
        cases hpast : range.past e.scope.scope with
        | error fault =>
            rw [hpast] at hgoes
            rw [hgoes]
            apply Sees.ended hfirst glimpse hpast
        | ok beyond =>
            rw [hpast] at hgoes
            apply Sees.passed hfirst glimpse hpast hgoes

/-- All searches in a range come to the same. -/
theorem Sees.answer_eq (h : v.Sees range o) (h' : v.Sees range o') (x : Oid) :
  o.answer? x = o'.answer? x
  := by
  induction h with
  | nothing first =>
      cases h' with
      | nothing _ => rfl
      | unavailable first' | found first' | ended first' | passed first' =>
          cases first.symm.trans first'
  | unavailable first glimpse =>
      obtain ⟨g, glimpse', hgoes⟩ := (sees_iff first).mp h'
      cases glimpse.eq glimpse'
      rw [hgoes]
  | found first glimpse =>
      obtain ⟨g, glimpse', hgoes⟩ := (sees_iff first).mp h'
      cases glimpse.eq glimpse'
      obtain ⟨query', rfl⟩ := hgoes
      rfl
  | ended first glimpse past =>
      obtain ⟨g, glimpse', hgoes⟩ := (sees_iff first).mp h'
      cases glimpse.eq glimpse'
      rw [GoesOn, past] at hgoes
      rw [hgoes]
  | passed first glimpse past rest ih =>
      obtain ⟨g, glimpse', hgoes⟩ := (sees_iff first).mp h'
      cases glimpse.eq glimpse'
      rw [GoesOn, past] at hgoes
      apply ih hgoes

end Sight

/-! ### What an agent shows -/

/-- Whether nobody but the owner holds the lock on an object. -/
def LockTable.isFreeFor (t : LockTable) (owner : LockOwner) (object : ObjectId) : Bool :=
  (t.share? owner object).isSome

/-- An attempt to lock an object that someone else has locked changes nothing. -/
theorem LockTable.attempt_snd_of_not_free {t : LockTable} {owner : LockOwner} {object : ObjectId}
    (h : t.isFreeFor owner object = false) :
  (t.attempt owner object).2 = t
  := by
  rw [isFreeFor, Option.isSome_eq_false_iff, Option.isNone_iff_eq_none] at h
  rw [attempt, acquire?_eq, h]
  rfl

/-- What a requester sees of objects that answer by the instances of finite maps. -/
def RequestContext.sight (context : RequestContext) (store : Store)
    (instances : ObjectId → OrderedMap Oid Value) (granted : AccessCheck → Bool)
    (free : ObjectId → Bool) : Sight where
  first range := (store.candidates ⟨.ofName context.context, range⟩ false).head?
  readable x := granted (context.check .read x)
  speakable v := !isUnspeakable context v
  value? object x :=
    if granted (context.check .read x) then (instances object).get? x else none
  readable_of_value? _ x _ hvalue := by
    rw [← Bool.not_eq_false]
    intro hdenied
    rw [hdenied] at hvalue
    cases hvalue
  free

namespace Sight

section

variable {context : RequestContext} {store : Store}
  {instances : ObjectId → OrderedMap Oid Value} {granted : AccessCheck → Bool}
  {free : ObjectId → Bool} {range : Scope} {e : Entry}

/-- A search may come upon the instances that the requester may be given. -/
theorem offers_iff {object : ObjectId} {b : Binding} :
  (context.sight store instances granted free).Offers object b
    ↔ (instances object).get? b.oid = some b.value
      ∧ (context.outlook store instances granted).allowed b
  := by
  change (if granted (context.check .read b.oid) then (instances object).get? b.oid else none)
      = some b.value ∧ (!isUnspeakable context b.value) = true
    ↔ _ ∧ (granted (context.check .read b.oid) && !isUnspeakable context b.value) = true
  cases granted (context.check .read b.oid) with
  | true => rfl
  | false => simp

/-- The answer of an object shows its first instance in a range, if the requester may be given it. -/
theorem Glimpses.of_answer {object : ObjectId} {b : Binding} (hfree : free object)
    (hinstance : (instances object).get? b.oid = some b.value) (hinside : range.contains b.oid)
    (hallowed : (context.outlook store instances granted).allowed b)
    (hleast : ∀ y w, (instances object).get? y = some w → range.contains y → b.oid ≤ y) :
  (context.sight store instances granted free).Glimpses object range (.shows b)
  := by
  apply Glimpses.shows hfree (offers_iff.mpr ⟨hinstance, hallowed⟩) hinside
  intro b' offers
  apply hleast b'.oid b'.value (offers_iff.mp offers).1

/-- An object without instances in a range shows nothing there. -/
theorem Glimpses.of_moveOn {object : ObjectId} (hfree : free object)
    (hnothing : ∀ y w, (instances object).get? y = some w → range.contains y = false) :
  (context.sight store instances granted free).Glimpses object range .lacks
  := by
  apply Glimpses.lacks hfree
  intro b offers
  apply hnothing b.oid b.value (offers_iff.mp offers).1

section

variable {x : Oid} {v : Value} (hrange : range.upper = none)
  (hinstance : (instances e.object).get? x = some v) (hinside : range.contains x)
  (hdenied : (context.outlook store instances granted).allowed ⟨x, v⟩ = false)
  (hleast : ∀ y w, (instances e.object).get? y = some w → range.contains y → x ≤ y)
include hrange hinstance hdenied hleast

/-- The instances of an object that a search may come upon lie after the first instance, when that
is denied. -/
theorem Offers.after_denied {b : Binding}
    (hoffers : (context.sight store instances granted free).Offers e.object b)
    (hb : range.contains b.oid) :
  (range.restart x).contains b.oid
  := by
  rw [offers_iff] at hoffers
  rw [Scope.contains_restart_iff hrange]
  apply lt_of_le_of_ne (hleast _ _ hoffers.1 hb)
  rintro rfl
  cases hinstance.symm.trans hoffers.1
  cases hdenied.symm.trans hoffers.2

include hinside

/-- What is seen of an object after its first instance is seen in the whole range, when that instance
is denied. -/
theorem Glimpses.of_restart {g : Glimpse}
    (glimpse : (context.sight store instances granted free).Glimpses e.object (range.restart x) g) :
  (context.sight store instances granted free).Glimpses e.object range g
  := by
  cases glimpse with
  | locked locked => apply Glimpses.locked locked
  | shows free offers inside least =>
      apply Glimpses.shows free offers
      · apply Scope.contains_of_lt hrange hinside
        apply (Scope.contains_restart_iff hrange).mp inside
      · intro b offers' inside'
        apply least b offers'
        apply offers'.after_denied hrange hinstance hdenied hleast inside'
  | lacks free outside =>
      apply Glimpses.lacks free
      intro b offers
      rw [← Bool.not_eq_true]
      intro inside
      have hafter := offers.after_denied hrange hinstance hdenied hleast inside
      cases hafter.symm.trans (outside b offers)

/-- What a search comes to after a denied instance is what it comes to in the whole range. -/
theorem Sees.of_restart (horderly : store.IsOrderly)
    (hencloses : store.Encloses (.ofName context.context) instances)
    (hfirst : (context.sight store instances granted free).first range = some e)
    (hfree : free e.object) {o : NextOutcome}
    (hrest : (context.sight store instances granted free).Sees (range.restart x) o) :
  (context.sight store instances granted free).Sees range o
  := by
  let c := context.outlook store instances granted
  have he := ((Circumstances.first_eq_some_iff (c := c) horderly).mp hfirst).1
  cases hoverlaps : e.scope.scope.overlaps (range.restart x) with
  | true =>
      -- the same object is asked again
      have hagain : (context.sight store instances granted free).first (range.restart x) = some e :=
        Circumstances.first_restart (c := c) horderly hrange hfirst hinside hoverlaps
      obtain ⟨g, glimpse, hgoes⟩ := (sees_iff hagain).mp hrest
      apply (sees_iff hfirst).mpr
      refine ⟨g, glimpse.of_restart hrange hinstance hinside hdenied hleast, ?_⟩
      cases g with
      | locked | shows b => exact hgoes
      | lacks =>
          rw [GoesOn, Scope.past_restart] at hgoes
          exact hgoes
  | false =>
      -- the denied instance is where the registration ends
      apply Sees.passed hfirst _ _ hrest
      · apply Glimpses.lacks hfree
        intro b offers
        rw [← Bool.not_eq_true]
        intro inside
        have hafter := offers.after_denied hrange hinstance hdenied hleast inside
        have hbinside := hencloses e he _ _ (offers_iff.mp offers).1
        cases hoverlaps.symm.trans (Scope.overlaps_of_contains hbinside hafter)
      · apply Circumstances.past_of_not_overlaps (c := c) horderly hrange he _ hoverlaps
        apply hencloses e he x v hinstance

end

end

end Sight

/-! ### Variables that have been read -/

/-- A variable without what led to its answer. -/
def Variable.bare (w : Variable) : Variable := { w with query := none, target := none }

/-- A variable is left with the answer that a search comes to, or with a failure. -/
theorem Variable.bare_recordNext {w : Variable} {o : NextOutcome} (ho : o ≠ .unfinished) :
  (recordNext w o).bare
    = match o.answer? w.binding.oid with
      | some b => w.bare.answer b
      | none => w.bare.fail .resourceUnavailable
  := by
  cases o with
  | unfinished => apply absurd rfl ho
  | _ => rfl

namespace Sight

variable (v : Sight)

/-- A variable that has been read from the registration of its OID. -/
def readExact (w : Variable) : Variable :=
  if v.readable w.binding.oid then
    match v.first w.scope with
    | none => w.answerValue .noSuchObject
    | some e =>
      if v.free e.object then
        let value := (ReadResult.ofOption (v.value? e.object w.binding.oid)).toValue
        if v.speakable value then w.answerValue value else w.fail .noSuchName
      else w.fail .resourceUnavailable
  else w.answerValue .noSuchObject

theorem oid_readExact (w : Variable) :
  (v.readExact w).binding.oid = w.binding.oid
  := by
  rw [readExact]
  split
  · split
    · rfl
    · split
      · dsimp only
        split
        · rfl
        · rfl
      · rfl
  · rfl

/-- How a variable is left that has been read. -/
def Reads (op : Operation) (w w' : Variable) : Prop :=
  if op.isNext then ∃ o, v.Sees w.scope o ∧ w' = recordNext w o
  else w'.bare = v.readExact w.bare

variable {v} {w w' u u' : Variable} {op : Operation}

theorem Sees.ne_unfinished {range : Scope} {o : NextOutcome} (h : v.Sees range o) :
  o ≠ .unfinished
  := by
  induction h with
  | nothing _ | unavailable _ _ | found _ _ | ended _ _ _ => nofun
  | passed _ _ _ _ ih => apply ih

/-- Variables that ask for the same are left with the same. -/
theorem Reads.bare_eq (h : v.Reads op w w') (h' : v.Reads op u u') (hsame : w.bare = u.bare) :
  w'.bare = u'.bare
  := by
  rw [Reads] at h h'
  split at h
  · rename_i hnext
    rw [if_pos hnext] at h'
    obtain ⟨o, hsees, rfl⟩ := h
    obtain ⟨o', hsees', rfl⟩ := h'
    have hscope := congrArg Variable.scope hsame
    have hbinding := congrArg Variable.binding hsame
    change w.scope = u.scope at hscope
    change w.binding = u.binding at hbinding
    rw [hscope] at hsees
    rw [Variable.bare_recordNext hsees.ne_unfinished, Variable.bare_recordNext hsees'.ne_unfinished,
      hsame, hbinding, hsees.answer_eq hsees']
  · rename_i hexact
    rw [if_neg hexact] at h'
    rw [h, h', hsame]

/-- What a search finds may be read. -/
theorem Sees.readable {range : Scope} {o : NextOutcome} (h : v.Sees range o) {e : Entry}
    {query : Query} {b : Binding} (ho : o = .found e query b) :
  v.readable b.oid
  := by
  induction h with
  | nothing _ | unavailable _ _ | ended _ _ _ => cases ho
  | passed _ _ _ _ ih => apply ih ho
  | found first glimpse =>
      cases ho
      cases glimpse with
      | shows _ offers _ _ => apply v.readable_of_value? _ _ _ offers.1

/-- A variable that is left with a value, and has not failed, has an OID that may be read. -/
theorem Reads.readable (h : v.Reads op w w') (hstatus : w'.status = .noError)
    (hvalue : w'.binding.isException = false) :
  v.readable w'.binding.oid
  := by
  rw [Reads] at h
  split at h
  · obtain ⟨o, hsees, rfl⟩ := h
    cases o with
    | endOfView => cases hvalue
    | unavailable e => cases hstatus
    | unfinished => apply absurd rfl hsees.ne_unfinished
    | found e query b => apply hsees.readable rfl
  · have hbinding := congrArg Variable.binding h
    change w'.binding = (v.readExact w.bare).binding at hbinding
    rw [hbinding] at hvalue ⊢
    rw [oid_readExact, ← Bool.not_eq_false]
    intro hdenied
    rw [readExact, hdenied] at hvalue
    cases hvalue

end Sight

namespace Agent

/-- The agent reads as it should, every object answers by the instances of a finite map, and nothing
happens to the locks while the agent waits for one of them. -/
structure Displays (a : Agent σ) (P : σ → Prop) (instances : ObjectId → OrderedMap Oid Value)
    (granted : AccessCheck → Bool) : Prop extends a.Offers P instances granted where
  waits : ∀ owner object timeout, IsQuiet P (a.wait owner object timeout)

namespace Displays

variable {a : Agent σ} {P : σ → Prop} {instances : ObjectId → OrderedMap Oid Value}
  {granted : AccessCheck → Bool} {store : Store} {locks : LockTable}
variable (h : a.Displays P instances granted)
include h

/-- An object is locked when nobody else holds its lock. -/
theorem gives_lockFor (context : RequestContext) (object : ObjectId) :
  Gives True P store locks (a.lockFor context object)
    (· = locks.isFreeFor context.transaction object)
    (locks.attempt context.transaction object).2
  := by
  constructor
  intro s hs hlocks
  obtain rfl := hlocks trivial
  have hrun : (a.lockFor context object).run s
      = (((a.lock context.transaction object a.config.lockTimeout).run s).1.isAcquired,
        ((a.lock context.transaction object a.config.lockTimeout).run s).2) := rfl
  rw [hrun, LockTable.attempt, LockTable.isFreeFor]
  cases hacquire : s.registry.locks.acquire? context.transaction object with
  | some locked =>
      rw [run_lock_of_acquire? hacquire]
      rw [LockTable.acquire?_eq] at hacquire
      obtain ⟨n, hn, -⟩ := Option.map_eq_some_iff.mp hacquire
      rw [hn]
      exact ⟨⟨hs.surroundings, hs.registrations⟩, fun _ => rfl, rfl⟩
  | none =>
      rw [run_lock_of_acquire?_eq_none hacquire]
      have hshare : s.registry.locks.share? context.transaction object = none := by
        rw [LockTable.acquire?_eq] at hacquire
        apply Option.map_eq_none_iff.mp hacquire
      rw [hshare]
      obtain ⟨ht, hsame⟩ := (h.waits context.transaction object a.config.lockTimeout store
        s.registry.locks).keeps s ⟨hs, rfl⟩
      cases hwait : (a.wait context.transaction object a.config.lockTimeout).run s with
      | mk ending t =>
          rw [hwait] at ht hsame
          dsimp only at ht hsame
          cases ending with
          | interrupted => exact ⟨ht, fun _ => hsame, rfl⟩
          | «over» =>
              dsimp only
              rw [run_tryLock, hsame, LockTable.attempt, hacquire]
              exact ⟨⟨ht.surroundings, ht.registrations⟩, fun _ => rfl, rfl⟩

/-- The search of an agent comes to what the requester sees, unless it is given up. -/
theorem gives_searchNext (hcounted : locks.IsCounted) (hstore : store.IsOrderly)
    (context : RequestContext)
    (hencloses : store.Encloses (.ofName context.context) instances) (visits : Nat) (query : Query)
    (hcontext : query.window.context = .ofName context.context)
    (hrange : query.range.upper = none) :
  Gives True P store locks (a.searchNext context visits query)
    (fun o => o ≠ .unfinished →
      (context.sight store instances granted (locks.isFreeFor context.transaction)).Sees
        query.range o) locks
  := by
  let v := context.sight store instances granted (locks.isFreeFor context.transaction)
  let c := context.outlook store instances granted
  have htruthful : c.IsTruthful instances := fun _ _ _ hr => hr
  induction visits generalizing query with
  | zero =>
      apply Gives.pure
      intro hfinished
      apply absurd rfl hfinished
  | succ visits ih =>
      apply (h.gives_find query).bind_eq
      have hfirst : (store.candidates query.window false).head? = v.first query.range := by
        change _ = (store.candidates ⟨.ofName context.context, query.range⟩ false).head?
        rw [← hcontext]
        rfl
      rw [hfirst]
      cases hcandidate : v.first query.range with
      | none =>
          apply Gives.pure
          intro _
          apply Sight.Sees.nothing hcandidate
      | some e =>
          apply (h.gives_lockFor context e.object).bind_eq
          cases hfree : locks.isFreeFor context.transaction e.object with
          | false =>
              rw [LockTable.attempt_snd_of_not_free hfree]
              apply Gives.pure
              intro _
              apply Sight.Sees.unavailable hcandidate (.locked hfree)
          | true =>
              apply (Gives.of_isQuiet (Q := (· = .within query.range (instances e.object)))
                (h.next e.object context query) (h.responds e.object context query)).bind_eq
              apply (gives_unlockFor context e.object
                fun _ => hcounted.unlock_attempt hfree).bind
              intro _ _
              let answer := NextResult.within query.range (instances e.object)
              have hnext : Gives True P store locks (a.nextStep context query answer)
                  (· = c.step query.range answer) locks := h.gives_nextStep context query answer
              apply hnext.bind_eq
              have hanswers : c.answers e.object query.range answer := rfl
              have hspec := htruthful.step_spec hanswers
              cases hstep : c.step query.range answer with
              | answer b =>
                  rw [hstep] at hspec
                  obtain ⟨hinstance, hinside, hallowed, hleast⟩ := hspec
                  apply Gives.pure
                  intro _
                  apply Sight.Sees.found hcandidate
                  apply Sight.Glimpses.of_answer hfree hinstance hinside hallowed hleast
              | restart x =>
                  rw [hstep] at hspec
                  obtain ⟨w, hinstance, hinside, hdenied, hleast⟩ := hspec
                  apply (ih (query.restart x) hcontext hrange).mono
                  intro o hrest hfinished
                  apply (hrest hfinished).of_restart hrange hinstance hinside hdenied hleast hstore
                    hencloses hcandidate hfree
              | moveOn =>
                  rw [hstep] at hspec
                  have hglimpse : v.Glimpses e.object query.range .lacks :=
                    .of_moveOn hfree hspec
                  dsimp only
                  rw [Query.past]
                  cases hpast : query.range.past e.scope.scope with
                  | error fault =>
                      apply Gives.pure
                      intro _
                      apply Sight.Sees.ended hcandidate hglimpse hpast
                  | ok beyond =>
                      have hbeyond : beyond.upper = none :=
                        (Circumstances.past_spec hpast).2.trans hrange
                      apply (ih { query with window := { query.window with scope := beyond } }
                        hcontext hbeyond).mono
                      intro o hrest hfinished
                      apply Sight.Sees.passed hcandidate hglimpse hpast (hrest hfinished)

/-- The value of an OID is read from what the requester sees. -/
theorem gives_readExact (hcounted : locks.IsCounted) (context : RequestContext) (w : Variable) :
  Gives True P store locks (a.readExact context w)
    (·.bare = (context.sight store instances granted
      (locks.isFreeFor context.transaction)).readExact w.bare) locks
  := by
  let v := context.sight store instances granted (locks.isFreeFor context.transaction)
  change Gives True P store locks (a.readExact context w) (·.bare = v.readExact w.bare) locks
  have hbare : w.bare.binding = w.binding ∧ w.bare.scope = w.scope := ⟨rfl, rfl⟩
  rw [Sight.readExact, hbare.1, hbare.2, readExact]
  apply (h.gives_access _).bind_eq
  have hreadable : v.readable w.binding.oid = granted (context.check .read w.binding.oid) := rfl
  rw [hreadable]
  cases hgranted : granted (context.check .read w.binding.oid) with
  | false =>
      apply Gives.pure
      rfl
  | true =>
      apply (h.gives_find (queryFor context w false)).bind_eq
      have hfirst : (store.candidates (queryFor context w false).window false).head?
          = v.first w.scope := rfl
      rw [hfirst]
      cases hcandidate : v.first w.scope with
      | none =>
          apply Gives.pure
          rfl
      | some e =>
          apply (h.gives_lockFor context e.object).bind_eq
          have hfree' : v.free e.object = locks.isFreeFor context.transaction e.object := rfl
          dsimp only
          rw [hfree']
          cases hfree : locks.isFreeFor context.transaction e.object with
          | false =>
              rw [LockTable.attempt_snd_of_not_free hfree]
              apply Gives.pure
              rfl
          | true =>
              apply (Gives.of_isQuiet
                (Q := (· = .ofOption ((instances e.object).get? w.binding.oid)))
                (h.get e.object context _) (h.gets e.object context _)).bind_eq
              apply (gives_unlockFor context e.object
                fun _ => hcounted.unlock_attempt hfree).bind
              intro _ _
              have hvalue : v.value? e.object w.binding.oid
                  = (instances e.object).get? w.binding.oid := if_pos hgranted
              have hspeakable : ∀ value, v.speakable value = !isUnspeakable context value :=
                fun _ => rfl
              simp only [hvalue, hspeakable, if_true]
              generalize (ReadResult.ofOption ((instances e.object).get? w.binding.oid)).toValue
                = value
              cases isUnspeakable context value with
              | true =>
                  apply Gives.pure
                  rfl
              | false =>
                  apply Gives.pure
                  rfl

/-- A variable is read from what the requester sees. -/
theorem gives_readVariable (hcounted : locks.IsCounted) (hstore : store.IsOrderly)
    (context : RequestContext)
    (hencloses : store.Encloses (.ofName context.context) instances)
    (hlimit : store.extent (.ofName context.context) instances < a.searchLimit) {x : Oid}
    {w : Variable} (hasks : w.Asks context.operation x) :
  Gives True P store locks (a.readVariable context w)
    ((context.sight store instances granted (locks.isFreeFor context.transaction)).Reads
      context.operation w) locks
  := by
  cases hnext : context.operation.isNext with
  | false =>
      have hread : a.readVariable context w = a.readExact context w := by
        rw [readVariable, hnext, if_neg Bool.false_ne_true]
      rw [hread]
      apply (h.gives_readExact hcounted context w).mono
      intro w' hw'
      rw [Sight.Reads, hnext, if_neg Bool.false_ne_true]
      apply hw'
  | true =>
      have hread : a.readVariable context w = a.readNext context w := by
        rw [readVariable, hnext, if_pos rfl]
      have hscope : w.scope = .after x := by rw [hasks.scope, if_pos hnext]
      have hrange : (queryFor context w false).range.upper = none := by
        change w.scope.upper = none
        rw [hscope]
        rfl
      have hseeks : Gives False P store locks
          (a.searchNext context a.searchLimit (queryFor context w false))
          (fun o => Seeks (context.outlook store instances granted) a.searchLimit w.scope o
            ∧ (False → o.isAvailable)) locks :=
        h.toReads.gives_searchNext context False.elim a.searchLimit (queryFor context w false) rfl
      have hsees := h.gives_searchNext hcounted hstore context hencloses a.searchLimit
        (queryFor context w false) rfl hrange
      rw [hread]
      apply (hseeks.and hsees).bind
      rintro o ⟨⟨hseeks, -⟩, hsees⟩
      apply Gives.pure
      have htruthful : (context.outlook store instances granted).IsTruthful instances :=
        fun _ _ _ hr => hr
      rw [Sight.Reads, if_pos hnext]
      exact ⟨o, hsees (hseeks.ne_unfinished hstore htruthful hrange hlimit), rfl⟩

end Displays

end Agent

end MibAgent
