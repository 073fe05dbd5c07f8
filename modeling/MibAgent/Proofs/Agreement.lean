import MibAgent.Proofs.Shelves

/-!
# What comes next, and what is there

What comes after an OID is the first instance after it for which a request for its value is given
one, apart from hidden instances: where a registration of the default context begins with an
OID, and one of the context asked for begins just after it, that one comes first in their order, and
the search goes on behind it.
-/

namespace MibAgent

open Agent (NextOutcome isUnspeakable)

variable {σ : Type}

/-- What is shown are the instances that the requester is given and that are not hidden. -/
theorem RequestContext.shows_iff {context : RequestContext} {store : Store}
    {instances : ObjectId → OrderedMap Oid Value} {granted : AccessCheck → Bool} {b : Binding}
    (hversion : context.version.isLegacy = false) :
  (context.outlook store instances granted).Shows instances b.oid b.value
    ↔ context.GetsInstance store instances granted b ∧ ¬ store.Hides (.ofName context.context) b.oid
  := by
  have hallowed := context.allowed_outlook hversion store instances granted b
  constructor
  · intro hshows
    obtain ⟨e, he, hinstance⟩ := hshows.served
    refine ⟨⟨e, ?_, hinstance⟩, hshows.shown⟩
    rw [source?, ← hallowed, if_pos hshows.allowed]
    apply he
  · rintro ⟨⟨e, he, hinstance⟩, hshown⟩
    rw [source?, ← hallowed] at he
    split at he
    · rename_i hgranted
      exact ⟨⟨e, he, hinstance⟩, hgranted, hshown⟩
    · cases he

namespace Agent

/-- In a state, a requester who asks for the value of an OID is given one. -/
def Tells (a : Agent σ) (context : RequestContext) (maxSize : Nat) (s : AgentState σ)
    (b : Binding) : Prop :=
  ((a.ask .get context maxSize b.oid).run s).1.answer? = some b ∧ b.isException = false

variable {a : Agent σ} {P : σ → Prop} {instances : ObjectId → OrderedMap Oid Value}
  {granted : AccessCheck → Bool} {store : Store}

/-- A request for the value of an OID is answered, when nobody holds a lock. -/
theorem Offers.answer_get (h : a.Offers P instances granted) {context : RequestContext}
    (hversion : context.version.isLegacy = false) (maxSize : Nat) (x : Oid) {s : AgentState σ}
    (hs : s.IsIdle P store) :
  ((a.ask .get context maxSize x).run s).1.answer?
    = some ⟨x, context.valueOf store instances granted x⟩
  := by
  have hspeakable : ∀ v, isUnspeakable context v = false := by
    intro v
    rw [isUnspeakable, hversion, Bool.false_and]
  obtain ⟨w, hvars, hholds⟩ := h.run_ask_get context maxSize x hs.toStands (hs.isOpenTo _)
  obtain ⟨hstatus, hbinding⟩ := hholds.given (hspeakable _)
  rw [Request.answer?_of_single hvars, if_pos hstatus, hbinding]

/-- A requester is given the value of an instance of the registration that answers for the OID. -/
theorem Offers.tells_iff (h : a.Offers P instances granted) {context : RequestContext}
    (hversion : context.version.isLegacy = false) (maxSize : Nat) {s : AgentState σ}
    (hs : s.IsIdle P store) {b : Binding} :
  a.Tells context maxSize s b
    ↔ context.GetsInstance store instances granted b ∧ b.isException = false
  := by
  apply and_congr_left
  intro hvalue
  rw [h.answer_get hversion maxSize b.oid hs, Option.some_inj]
  constructor
  · intro hb
    apply RequestContext.getsInstance_of_valueOf _ hvalue
    rw [← hb]
  · intro hgets
    rw [hgets.valueOf_eq]

/-- What comes after an OID is the first instance of which the requester is given the value, apart
from those that are hidden; and it is the end of the view when there is none. Only where an object
has an exception for one of its instances can an exception be what comes next. -/
theorem next_agrees (h : a.Offers P instances granted) {context : RequestContext}
    (hversion : context.version.isLegacy = false) {s : AgentState σ}
    (hreachable : s.IsReachable) (hs : P s.surroundings) (hunlocked : s.registry.locks = .empty)
    (hencloses : s.registry.store.Encloses (.ofName context.context) instances)
    (hlimit : s.registry.store.extent (.ofName context.context) instances < a.searchLimit)
    (maxSize : Nat) (x : Oid) :
  let next := ((a.ask .getNext context maxSize x).run s).1.answer?
  let Hidden := s.registry.store.Hides (.ofName context.context)
  (∃ b, next = some b ∧ x < b.oid ∧ ¬ Hidden b.oid
      ∧ ((a.ask .get context maxSize b.oid).run s).1.answer? = some b
      ∧ (b.isException → ∃ object, (instances object).get? b.oid = some b.value)
      ∧ ∀ c, x < c.oid → a.Tells context maxSize s c → ¬ Hidden c.oid → b.oid ≤ c.oid)
    ∨ next = some ⟨x, .endOfMibView⟩
      ∧ ∀ c, x < c.oid → a.Tells context maxSize s c → Hidden c.oid
  := by
  intro next Hidden
  have hidle : s.IsIdle P s.registry.store := ⟨⟨hs, rfl⟩, hunlocked⟩
  have hshows : ∀ c : Binding, a.Tells context maxSize s c → ¬ Hidden c.oid →
      (context.outlook s.registry.store instances granted).Shows instances c.oid c.value := by
    intro c hc hshown
    obtain ⟨hgets, -⟩ := (h.tells_iff hversion maxSize hidle).mp hc
    exact (RequestContext.shows_iff hversion).mpr ⟨hgets, hshown⟩
  obtain ⟨-, o, hleads, hanswer⟩ :=
    h.ask_leads context maxSize x hreachable hencloses hlimit hidle
  cases hleads with
  | @found e query b shows target inside least =>
      left
      obtain ⟨hgets, hshown⟩ := (RequestContext.shows_iff hversion).mp shows
      refine ⟨b, hanswer, Scope.contains_after_iff.mp inside, hshown, ?_, ?_, ?_⟩
      · rw [h.answer_get hversion maxSize b.oid hidle, hgets.valueOf_eq]
      · intro _
        obtain ⟨e, -, hinstance⟩ := hgets
        exact ⟨e.object, hinstance⟩
      · intro c hlt hc hcshown
        apply least c.oid c.value (hshows c hc hcshown) (Scope.contains_after_iff.mpr hlt)
  | endOfView nothing =>
      right
      use hanswer
      intro c hlt hc
      by_contra hcshown
      have hout := nothing c.oid c.value (hshows c hc hcshown)
      rw [Scope.contains_after_iff.mpr hlt] at hout
      cases hout

/-- After the last instance of a shelf in the default context comes the first one of a shelf in the
named context, of which the requester is given the value. -/
theorem pairs_agree :
  let a := Shelves.agent Shelves.pairs fun _ => true
  let s := Shelves.stocked
    [Shelves.placed Shelves.pairs none 1, Shelves.placed Shelves.pairs (some Shelves.owner) 2]
  ((a.ask .getNext Shelves.requester 100 (Shelves.second 1)).run s).1.answer?
      = some ⟨Shelves.first 2, .integer 5⟩
    ∧ a.Tells Shelves.requester 100 s ⟨Shelves.first 2, .integer 5⟩
  := by
  intro a s
  let c := Shelves.requester.outlook s.registry.store
    (fun number => (Shelves.pairs number).instances) fun _ => true
  have hreachable : s.IsReachable := Shelves.isReachable_stocked _
  have hversion : Shelves.requester.version.isLegacy = false := rfl
  have hnext : ((a.ask .getNext Shelves.requester 100 (Shelves.second 1)).run s).1.answer?
      = some ⟨Shelves.first 2, .integer 5⟩ := by
    have hfirst : c.first (.after (Shelves.second 1))
        = some ⟨⟨none, (Shelves.pairs 1).scope⟩, 1⟩ := by
      rw [Circumstances.first_eq_some_iff hreachable.isOrderly]
      decide +kernel
    have hsecond : c.first (.startingAt ⟨[1, 2]⟩)
        = some ⟨⟨some Shelves.owner, (Shelves.pairs 2).scope⟩, 2⟩ := by
      rw [Circumstances.first_eq_some_iff hreachable.isOrderly]
      decide +kernel
    obtain ⟨o, hseeks, havailable, hanswer⟩ := Shelves.exists_seeks Shelves.pairs (fun _ => true)
      [Shelves.placed Shelves.pairs none 1, Shelves.placed Shelves.pairs (some Shelves.owner) 2]
      Shelves.requester 100 (Shelves.second 1)
    -- the shelf of the default context has nothing left, and the search goes on behind it
    obtain ⟨r, rfl, hrest⟩ := hseeks.of_first havailable hfirst
    obtain ⟨r, rfl, query, rfl⟩ := Seeks.of_first hrest havailable hsecond
    apply hanswer
  use hnext
  rcases next_agrees (Shelves.offers_agent Shelves.pairs fun _ => true) hversion hreachable trivial
      rfl (Store.encloses_iff.mpr (by decide +kernel)) (by decide +kernel) 100 (Shelves.second 1)
    with ⟨b, hb, -, -, hget, -⟩ | ⟨hend, -⟩
  · cases hb.symm.trans hnext
    exact ⟨hget, rfl⟩
  · cases hend.symm.trans hnext

end Agent

/-- A shelf with an instance where its scope begins, and one without instances the scope of which
begins just after it. -/
def Shelves.touching (number : ObjectId) : Shelf where
  scope := if number = 1 then .subtree ⟨[1]⟩ else .between ⟨[1]⟩ false (some ⟨[2]⟩) false
  instances := if number = 1 then .ofList [(⟨[1]⟩, .integer 5)] else .empty

/-- An instance of which the requester is given the value is not always what comes next. -/
theorem Agent.touching_disagree :
  let a := Shelves.agent Shelves.touching fun _ => true
  let s := Shelves.stocked
    [Shelves.placed Shelves.touching none 1, Shelves.placed Shelves.touching (some Shelves.owner) 2]
  s.IsReachable
    ∧ s.registry.store.Encloses (some Shelves.owner) (fun number =>
      (Shelves.touching number).instances)
    ∧ a.Tells Shelves.requester 100 s ⟨⟨[1]⟩, .integer 5⟩
    ∧ ((a.ask .getNext Shelves.requester 100 ⟨[0]⟩).run s).1.answer? = some ⟨⟨[0]⟩, .endOfMibView⟩
  := by
  intro a s
  let c := Shelves.requester.outlook s.registry.store
    (fun number => (Shelves.touching number).instances) fun _ => true
  have hreachable : s.IsReachable := Shelves.isReachable_stocked _
  refine ⟨hreachable, Store.encloses_iff.mpr (by decide +kernel), ?_, ?_⟩
  · have hsource : c.first (.exact ⟨[1]⟩) = some ⟨⟨none, (Shelves.touching 1).scope⟩, 1⟩ := by
      rw [Circumstances.first_eq_some_iff hreachable.isOrderly]
      decide +kernel
    apply ((Shelves.offers_agent Shelves.touching fun _ => true).tells_iff rfl 100
      (Shelves.isIdle_stocked _)).mpr
    exact ⟨⟨_, hsource, rfl⟩, rfl⟩
  · have hfirst : c.first (.after ⟨[0]⟩)
        = some ⟨⟨some Shelves.owner, (Shelves.touching 2).scope⟩, 2⟩ := by
      rw [Circumstances.first_eq_some_iff hreachable.isOrderly]
      decide +kernel
    have hnothing : c.first (.startingAt ⟨[2]⟩) = none := by
      rw [Circumstances.first_eq_none_iff hreachable.isOrderly]
      decide +kernel
    obtain ⟨o, hseeks, havailable, hanswer⟩ := Shelves.exists_seeks Shelves.touching
      (fun _ => true)
      [Shelves.placed Shelves.touching none 1, Shelves.placed Shelves.touching (some Shelves.owner) 2]
      Shelves.requester 100 ⟨[0]⟩
    -- the shelf without instances comes first, and the other one does not go on behind it
    obtain ⟨r, rfl, hrest⟩ := hseeks.of_first havailable hfirst
    rw [hanswer, Seeks.eq_endOfView hrest hnothing]
    rfl

end MibAgent
