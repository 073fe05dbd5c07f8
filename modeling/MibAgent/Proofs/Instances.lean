import MibAgent.Proofs.FirstEntries
import MibAgent.Proofs.Searches
import Mathlib.Algebra.GroupWithZero.Nat
import Mathlib.Algebra.Order.BigOperators.Group.List
import Mathlib.Algebra.Order.Group.Nat

/-!
# Instances in order

Where every object answers by the instances of a finite map, a search comes upon the first instance
in its range that the requester may be given, and upon the end of the view when there is none. It
has to visit no more registrations than there are registrations and instances. One kind of
instance is never come upon: an instance with whose OID a registration of the default context begins
while one of the context asked for begins just after it. That one comes first in their order, and
the search goes on after it.
-/

namespace MibAgent

open Agent (NextOutcome NextStep)

/-- What an object with certain instances answers when it is asked for the first one in a range. -/
def NextResult.within (range : Scope) (m : OrderedMap Oid Value) : NextResult :=
  .ofOption <| Option.map (fun i => ⟨i.1, i.2⟩) <| range.firstEntry? m

/-- What such an object has found is one of its instances. -/
theorem NextResult.get?_of_within {range : Scope} {m : OrderedMap Oid Value} {b : Binding}
    (h : within range m = .found b) :
  m.get? b.oid = some b.value
  := by
  rw [within] at h
  cases hfirst : range.firstEntry? m with
  | none =>
      rw [hfirst] at h
      cases h
  | some i =>
      rw [hfirst] at h
      cases h
      apply (Scope.firstEntry?_eq_some_iff.mp hfirst).1

/-! ### Registrations in a range -/

/-- An end at an OID that is not the one including it excludes it. -/
theorem Endpoint.ext_excluded {p : Endpoint} {x : Oid} (hoid : p.oid = x) (h : p ≠ ⟨x, true⟩) :
  p = ⟨x, false⟩
  := by
  obtain ⟨y, included⟩ := p
  cases hoid
  cases included with
  | false => rfl
  | true => apply absurd rfl h

namespace ContextScope

variable {s t : ContextScope} {x : Oid}

theorem oid_le_of_rank_lt (h : s.rank < t.rank) :
  s.scope.lower.oid ≤ t.scope.lower.oid
  := by
  rcases Prod.Lex.toLex_lt_toLex.mp h with hlt | ⟨heq, -⟩
  · apply hlt.le
  · apply heq.le

/-- Of two scopes that begin at the same OID, the one that excludes it comes first only as one of a
named context before one of the default context. -/
theorem tags_of_rank_lt (hs : s.scope.lower = ⟨x, false⟩) (ht : t.scope.lower = ⟨x, true⟩)
    (h : s.rank < t.rank) :
  s.context ≠ none ∧ t.context = none
  := by
  rw [rank, rank, hs, ht, Prod.Lex.toLex_lt_toLex] at h
  obtain ⟨-, htag⟩ := h.resolve_left (lt_irrefl x)
  rcases Prod.Lex.toLex_lt_toLex.mp htag with hlt | ⟨-, hends⟩
  · obtain ⟨hnamed, hdefault⟩ := Bool.lt_iff.mp hlt
    constructor
    · rintro hnone
      change s.context.isNone = false at hnamed
      rw [hnone] at hnamed
      cases hnamed
    · apply Option.isNone_iff_eq_none.mp hdefault
  · rcases Prod.Lex.toLex_lt_toLex.mp hends with hlt | ⟨heq, -⟩
    · cases (Bool.lt_iff.mp hlt).2
    · cases heq

end ContextScope

namespace Scope

variable {range : Scope}

/-- A scope starts before the place after an OID when it begins before the OID or with it. -/
theorem start_lt_beside_iff {s : Scope} {x : Oid} :
  s.start < .beside x true ↔ s.lower.oid < x ∨ s.lower = ⟨x, true⟩
  := by
  obtain ⟨⟨y, included⟩, upper⟩ := s
  rw [start, Endpoint.start, Cut.beside_lt_beside]
  cases included with
  | false => simp
  | true => simp

/-- A scope with room overlaps a range without end unless it finishes before the range starts. -/
theorem overlaps_iff_of_unbounded {s : Scope} (hs : s.start < s.finish)
    (hrange : range.upper = none) :
  s.overlaps range ↔ range.start < s.finish
  := by
  have hfinish : range.finish = ⊤ := by
    rw [finish, hrange]
    rfl
  rw [overlaps_iff, hfinish, min_eq_left le_top, max_lt_iff]
  exact and_iff_right hs

theorem contains_iff_of_unbounded {x : Oid} (hrange : range.upper = none) :
  range.contains x ↔ range.start < .beside x true
  := by
  rw [contains_iff, finish, hrange]
  exact and_iff_left Cut.beside_lt_top

theorem contains_restart_iff {x y : Oid} (hrange : range.upper = none) :
  (range.restart x).contains y ↔ x < y
  := by
  have hrestart : (range.restart x).upper = none := hrange
  have hstart : (range.restart x).start = .beside x true := rfl
  rw [contains_iff_of_unbounded hrestart, hstart, Cut.beside_lt_beside,
    or_iff_left fun h => lt_irrefl _ h.2]

theorem contains_after_iff {x y : Oid} :
  (after x).contains y ↔ x < y
  := by
  have hupper : (after x).upper = none := rfl
  apply contains_restart_iff hupper

theorem contains_of_lt {x y : Oid} (hrange : range.upper = none) (hx : range.contains x)
    (h : x < y) :
  range.contains y
  := by
  rw [contains_iff_of_unbounded hrange] at hx ⊢
  apply hx.trans_le (Cut.beside_le_of_lt h)

theorem lt_of_finish_le {s : Scope} {x y : Oid} (hx : s.contains x)
    (hy : s.finish ≤ .beside y false) :
  x < y
  := by
  rcases Cut.beside_lt_beside.mp ((contains_iff.mp hx).2.trans_le hy) with hlt | ⟨-, hlt⟩
  · apply hlt
  · apply absurd hlt (lt_irrefl _)

end Scope

/-- The instances of the object lie in the scope that it is registered for. -/
def Entry.Encloses (e : Entry) (instances : ObjectId → OrderedMap Oid Value) : Prop :=
  ∀ x v, (instances e.object).get? x = some v → e.scope.scope.contains x

namespace Store

/-- The registration that answers for an OID in a context. -/
def entryAt? (s : Store) (context : Context) (x : Oid) : Option Entry :=
  (s.candidates ⟨context, .exact x⟩ false).head?

/-- A registration in the default context answers for the OID with which it begins, and in the
context asked for one begins just after it. -/
def Hides (s : Store) (context : Context) (x : Oid) : Prop :=
  (∃ d, s.entryAt? context x = some d
      ∧ d.scope.context = none ∧ d.scope.scope.lower = ⟨x, true⟩)
    ∧ ∃ e ∈ s.visible context false, e.scope.context ≠ none ∧ e.scope.scope.lower = ⟨x, false⟩

/-- The instances of every object that is seen in a context lie in the scopes that it is registered
for. -/
def Encloses (s : Store) (context : Context) (instances : ObjectId → OrderedMap Oid Value) : Prop :=
  ∀ e ∈ s.visible context false, e.Encloses instances

theorem encloses_iff {s : Store} {context : Context} {instances : ObjectId → OrderedMap Oid Value} :
  s.Encloses context instances ↔ ∀ e ∈ s.visible context false,
    ∀ i ∈ (instances e.object).entries, e.scope.scope.contains i.1
  := by
  apply forall₂_congr
  intro e _
  constructor
  · rintro h ⟨x, v⟩ hi
    apply h x v (OrderedMap.mem_entries_iff.mp hi)
  · intro h x v hx
    apply h (x, v) (OrderedMap.mem_entries_iff.mpr hx)

/-- How many registrations a search in a context may have to visit: each of them once for each of its
instances, and once more. -/
def extent (s : Store) (context : Context) (instances : ObjectId → OrderedMap Oid Value) : Nat :=
  ((s.visible context false).map fun e => (instances e.object).size + 1).sum

end Store

namespace Circumstances

variable {c : Circumstances} {range : Scope} {e : Entry} {x : Oid}

/-- The registrations that are seen in the context. -/
def visible (c : Circumstances) : List Entry := c.store.visible c.context false

theorem first_eq_some_iff (h : c.store.IsOrderly) :
  c.first range = some e ↔ e ∈ c.visible ∧ e.scope.scope.overlaps range
    ∧ ∀ e' ∈ c.visible, e'.scope.scope.overlaps range → e' = e ∨ e.scope.rank < e'.scope.rank
  := by
  obtain ⟨hperm, hascending⟩ := Store.candidates_spec h ⟨c.context, range⟩ false
  have hhead : c.first range
      = (c.store.candidates ⟨c.context, range⟩ false).find? fun _ => true := by
    rw [first]
    cases c.store.candidates ⟨c.context, range⟩ false with
    | nil => rfl
    | cons e rest => rfl
  rw [hhead, find?_eq_some_iff_least hascending]
  simp only [hperm.mem_iff, Store.matching, List.mem_filter, visible, true_and, true_implies,
    and_assoc, and_imp]

theorem first_eq_none_iff (h : c.store.IsOrderly) :
  c.first range = none ↔ ∀ e ∈ c.visible, e.scope.scope.overlaps range = false
  := by
  obtain ⟨hperm, -⟩ := Store.candidates_spec h ⟨c.context, range⟩ false
  rw [first, List.head?_eq_none_iff, ← List.length_eq_zero_iff, hperm.length_eq,
    List.length_eq_zero_iff, Store.matching, List.filter_eq_nil_iff]
  simp only [Bool.not_eq_true]
  rfl

/-- In the default context nothing is hidden. -/
theorem not_hides_of_default (h : c.store.IsOrderly) (hcontext : c.context = none) :
  ¬ c.store.Hides c.context x
  := by
  rintro ⟨-, e, he, hnamed, -⟩
  apply hnamed
  rw [hcontext] at he
  apply (h.partition none).tagged e he

theorem inhabited (h : c.store.IsOrderly) (he : e ∈ c.visible) :
  e.scope.scope.start < e.scope.scope.finish
  := by
  have hpart : ∃ d, e ∈ (c.store.partition d).toList := by
    rw [visible] at he
    cases hcontext : c.context with
    | none =>
        rw [hcontext] at he
        exact ⟨_, he⟩
    | some name =>
        rw [hcontext] at he
        rcases List.mem_append.mp he with he | he
        · exact ⟨_, he⟩
        · exact ⟨_, he⟩
  obtain ⟨d, hd⟩ := hpart
  apply (h.partition d).inhabited e hd

/-- The first registration in a range answers for every OID of the range that it contains. -/
theorem first_exact (h : c.store.IsOrderly) (hfirst : c.first range = some e)
    (hx : range.contains x) (he : e.scope.scope.contains x) :
  c.first (.exact x) = some e
  := by
  obtain ⟨hvisible, -, hleast⟩ := (first_eq_some_iff h).mp hfirst
  apply (first_eq_some_iff h).mpr
  use hvisible, Scope.contains_iff_overlaps.mp he
  intro e' he' hx'
  apply hleast e' he'
  apply Scope.overlaps_of_contains (Scope.contains_iff_overlaps.mpr hx') hx

/-- In the default context there is one registration at most that contains an OID, and it answers
for it. -/
theorem first_exact_of_default (h : c.store.IsOrderly) (hcontext : c.context = none)
    (he : e ∈ (c.store.partition none).toList) (hx : e.scope.scope.contains x) :
  c.first (.exact x) = some e
  := by
  have hvisible : c.visible = (c.store.partition none).toList := by rw [visible, hcontext]; rfl
  rw [first_eq_some_iff h, hvisible]
  use he, Scope.contains_iff_overlaps.mp hx
  intro e' he' hx'
  left
  apply (h.partition none).eq_of_contains he' he (Scope.contains_iff_overlaps.mpr hx') hx

/-- What the first registration in a range without end contains is not hidden. -/
theorem not_hides_of_first (h : c.store.IsOrderly) (hrange : range.upper = none)
    (hfirst : c.first range = some e) (hx : range.contains x) (he : e.scope.scope.contains x) :
  ¬ c.store.Hides c.context x
  := by
  rintro ⟨⟨d, hd, hdefault, hlower⟩, e', he', hnamed, hlower'⟩
  cases (first_exact h hfirst hx he).symm.trans hd
  obtain ⟨-, -, hleast⟩ := (first_eq_some_iff h).mp hfirst
  have hinhabited := inhabited h he'
  have hstart : e'.scope.scope.start = .beside x true := by
    rw [Scope.start, hlower']
    rfl
  have hoverlaps : e'.scope.scope.overlaps range := by
    rw [Scope.overlaps_iff_of_unbounded hinhabited hrange]
    apply ((Scope.contains_iff_of_unbounded hrange).mp hx).trans
    rw [← hstart]
    apply hinhabited
  rcases hleast e' he' hoverlaps with rfl | hlt
  · apply hnamed hdefault
  · obtain ⟨name, hname⟩ := Option.ne_none_iff_exists'.mp hnamed
    apply lt_asymm hlt
    apply ContextScope.rank_lt_of_named hname hdefault
    rw [hlower, hlower']

/-- An OID in a range for which another registration answers than the first one in the range lies
behind that one, unless it is hidden. -/
theorem finish_le_of_first (h : c.store.IsOrderly) (hfirst : c.first range = some e)
    (hx : range.contains x) {d : Entry} (hd : c.first (.exact x) = some d)
    (hshown : ¬ c.store.Hides c.context x) (hne : d ≠ e) :
  e.scope.scope.finish ≤ .beside x false
  := by
  obtain ⟨he, -, hleast⟩ := (first_eq_some_iff h).mp hfirst
  obtain ⟨hvisible, hdx, hdleast⟩ := (first_eq_some_iff h).mp hd
  rw [← Scope.contains_iff_overlaps] at hdx
  have hlt : e.scope.rank < d.scope.rank :=
    (hleast d hvisible (Scope.overlaps_of_contains hdx hx)).resolve_left hne
  have hout : ¬ e.scope.scope.contains x := by
    intro hex
    rcases hdleast e he (Scope.contains_iff_overlaps.mp hex) with heq | hgt
    · apply hne heq.symm
    · apply lt_asymm hlt hgt
  by_contra hfinish
  rw [not_le] at hfinish
  have hstart : ¬ e.scope.scope.start < .beside x true :=
    fun hlt => hout (Scope.contains_iff.mpr ⟨hlt, hfinish⟩)
  have hdstart := (Scope.contains_iff.mp hdx).1
  rw [Scope.start_lt_beside_iff, not_or, not_lt] at hstart
  rw [Scope.start_lt_beside_iff] at hdstart
  have hle := ContextScope.oid_le_of_rank_lt hlt
  -- the first registration begins just after the OID, and the other one with the OID
  have hdlower : d.scope.scope.lower = ⟨x, true⟩ :=
    hdstart.resolve_left (hstart.1.trans hle).not_gt
  have hlower : e.scope.scope.lower = ⟨x, false⟩ := by
    rw [hdlower] at hle
    apply Endpoint.ext_excluded (le_antisymm hle hstart.1) hstart.2
  obtain ⟨hnamed, hdefault⟩ := ContextScope.tags_of_rank_lt hlower hdlower hlt
  exact hshown ⟨⟨d, hd, hdefault, hdlower⟩, e, he, hnamed, hlower⟩

/-! ### Instances in a range -/

/-- Every object answers by its instances. -/
def IsTruthful (c : Circumstances) (instances : ObjectId → OrderedMap Oid Value) : Prop :=
  ∀ object range r, c.answers object range r → r = .within range (instances object)

/-- An instance that the requester may be given, of the object that answers for its OID, and that
is not hidden. -/
structure Shows (c : Circumstances) (instances : ObjectId → OrderedMap Oid Value) (x : Oid)
    (v : Value) : Prop where
  served : ∃ e, c.first (.exact x) = some e ∧ (instances e.object).get? x = some v
  allowed : c.allowed ⟨x, v⟩
  shown : ¬ c.store.Hides c.context x

/-- What a search in a range comes to when it comes to an end. -/
inductive Leads (c : Circumstances) (instances : ObjectId → OrderedMap Oid Value) (range : Scope) :
    NextOutcome → Prop where
  | found {e : Entry} {query : Query} {b : Binding} (shows : c.Shows instances b.oid b.value)
    (target : c.first (.exact b.oid) = some e) (inside : range.contains b.oid)
    (least : ∀ x v, c.Shows instances x v → range.contains x → b.oid ≤ x) :
    Leads c instances range (.found e query b)
  | endOfView (nothing : ∀ x v, c.Shows instances x v → range.contains x = false) :
    Leads c instances range .endOfView

variable {instances : ObjectId → OrderedMap Oid Value} {v : Value}

/-- The search can go on in a smaller range in which the same is shown. -/
theorem Leads.widen {smaller : Scope} {o : NextOutcome} (h : c.Leads instances smaller o)
    (hinside : ∀ x, smaller.contains x → range.contains x)
    (hshown : ∀ x v, c.Shows instances x v → range.contains x → smaller.contains x) :
  c.Leads instances range o
  := by
  cases h with
  | found shows target inside least =>
      apply Leads.found shows target (hinside _ inside)
      intro x v hx hcontains
      apply least x v hx (hshown x v hx hcontains)
  | endOfView nothing =>
      apply Leads.endOfView
      intro x v hx
      rw [← Bool.not_eq_true]
      intro hcontains
      have hsmaller := hshown x v hx hcontains
      rw [nothing x v hx] at hsmaller
      cases hsmaller

/-- In the default context, every instance is shown that the requester may be given. -/
theorem shows_iff_of_default (h : c.store.IsOrderly) (hcontext : c.context = none)
    (hencloses : c.store.Encloses none instances) :
  c.Shows instances x v ↔ c.allowed ⟨x, v⟩
    ∧ ∃ e ∈ (c.store.partition none).toList, (instances e.object).get? x = some v
  := by
  constructor
  · intro hshows
    obtain ⟨e, he, hinstance⟩ := hshows.served
    have hvisible := ((first_eq_some_iff h).mp he).1
    rw [visible, hcontext] at hvisible
    exact ⟨hshows.allowed, e, hvisible, hinstance⟩
  · rintro ⟨hallowed, e, he, hinstance⟩
    have hx := hencloses e he x v hinstance
    exact ⟨⟨e, first_exact_of_default h hcontext he hx, hinstance⟩, hallowed,
      not_hides_of_default h hcontext⟩

theorem Shows.eq_value {w : Value} (h : c.Shows instances x v) (h' : c.Shows instances x w) :
  v = w
  := by
  obtain ⟨e, he, hv⟩ := h.served
  obtain ⟨e', he', hw⟩ := h'.served
  cases he.symm.trans he'
  apply Option.some_inj.mp (hv.symm.trans hw)

/-- An instance that is shown in a range is one of the first registration in the range, or lies
behind that one. -/
theorem Shows.first_or (hx : c.Shows instances x v) (h : c.store.IsOrderly)
    (hfirst : c.first range = some e) (hcontains : range.contains x) :
  (instances e.object).get? x = some v ∨ e.scope.scope.finish ≤ .beside x false
  := by
  obtain ⟨d, hd, hinstance⟩ := hx.served
  by_cases hde : d = e
  · subst hde
    left
    apply hinstance
  · right
    apply finish_le_of_first h hfirst hcontains hd hx.shown hde

/-- What an object's answer by its instances leads to. -/
theorem IsTruthful.step_spec (h : c.IsTruthful instances) {object : ObjectId} {r : NextResult}
    (answers : c.answers object range r) :
  let m := instances object
  match c.step range r with
  | .answer b => m.get? b.oid = some b.value ∧ range.contains b.oid ∧ c.allowed b
      ∧ ∀ y w, m.get? y = some w → range.contains y → b.oid ≤ y
  | .restart x => ∃ v, m.get? x = some v ∧ range.contains x ∧ c.allowed ⟨x, v⟩ = false
      ∧ ∀ y w, m.get? y = some w → range.contains y → x ≤ y
  | .moveOn => ∀ y w, m.get? y = some w → range.contains y = false
  := by
  intro m
  rw [h _ _ _ answers, NextResult.within]
  cases hfirst : range.firstEntry? m with
  | none => apply Scope.firstEntry?_eq_none_iff.mp hfirst
  | some i =>
      obtain ⟨x, v⟩ := i
      obtain ⟨hx, hcontains, hleast⟩ := Scope.firstEntry?_eq_some_iff.mp hfirst
      simp only [Option.map_some, NextResult.ofOption, step, hcontains, if_true]
      cases hallowed : c.allowed ⟨x, v⟩ with
      | true => exact ⟨hx, hcontains, hallowed, hleast⟩
      | false => exact ⟨v, hx, hcontains, hallowed, hleast⟩

/-- The search goes on after an instance that the requester may not be given. -/
theorem Leads.of_restart {o : NextOutcome} (hleads : c.Leads instances (range.restart x) o)
    (h : c.store.IsOrderly) (hencloses : c.store.Encloses c.context instances)
    (hrange : range.upper = none) (hfirst : c.first range = some e)
    (hinstance : (instances e.object).get? x = some v) (hinside : range.contains x)
    (hdenied : c.allowed ⟨x, v⟩ = false)
    (hleast : ∀ y w, (instances e.object).get? y = some w → range.contains y → x ≤ y) :
  c.Leads instances range o
  := by
  have hcontains := hencloses e ((first_eq_some_iff h).mp hfirst).1 _ _ hinstance
  have hrestart : ∀ y, (range.restart x).contains y ↔ x < y := fun y =>
    Scope.contains_restart_iff hrange
  apply hleads.widen
  · intro y hy
    apply Scope.contains_of_lt hrange hinside ((hrestart y).mp hy)
  · intro y w hy hyrange
    apply (hrestart y).mpr
    rcases hy.first_or h hfirst hyrange with hyinstance | hbehind
    · apply lt_of_le_of_ne (hleast y w hyinstance hyrange)
      rintro rfl
      cases hinstance.symm.trans hyinstance
      rw [hy.allowed] at hdenied
      cases hdenied
    · apply Scope.lt_of_finish_le hcontains hbehind

/-- A range that is moved past a scope starts where the scope finishes. -/
theorem past_spec {range beyond s : Scope} (h : range.past s = .ok beyond) :
  beyond.start = s.finish ∧ beyond.upper = range.upper
  := by
  rw [Scope.past] at h
  rw [Scope.finish]
  cases hupper : s.upper with
  | none =>
      rw [hupper] at h
      cases h
  | some upper =>
      rw [hupper] at h
      cases h
      rw [Scope.start, Endpoint.start, Bool.not_not]
      exact ⟨rfl, rfl⟩

/-- The search goes on behind a registration that has no instance in the range. -/
theorem Leads.of_past {o : NextOutcome} {beyond : Scope} (hleads : c.Leads instances beyond o)
    (h : c.store.IsOrderly) (hrange : range.upper = none) (hfirst : c.first range = some e)
    (hnothing : ∀ y w, (instances e.object).get? y = some w → range.contains y = false)
    (hpast : range.past e.scope.scope = .ok beyond) :
  c.Leads instances range o
  := by
  obtain ⟨hstart, hupper⟩ := past_spec hpast
  obtain ⟨he, hoverlaps, -⟩ := (first_eq_some_iff h).mp hfirst
  rw [Scope.overlaps_iff_of_unbounded (inhabited h he) hrange] at hoverlaps
  rw [hrange] at hupper
  apply hleads.widen
  · intro y hy
    rw [Scope.contains_iff_of_unbounded hupper, hstart] at hy
    rw [Scope.contains_iff_of_unbounded hrange]
    apply hoverlaps.trans hy
  · intro y w hy hyrange
    rw [Scope.contains_iff_of_unbounded hupper, hstart]
    rcases hy.first_or h hfirst hyrange with hyinstance | hbehind
    · rw [hnothing y w hyinstance] at hyrange
      cases hyrange
    · apply hbehind.trans_lt Cut.beside_lt_beside_self

theorem finish_of_past_error {range s : Scope} {fault : ScopeFault}
    (h : range.past s = .error fault) :
  s.finish = ⊤
  := by
  rw [Scope.past] at h
  rw [Scope.finish]
  cases hupper : s.upper with
  | none => rfl
  | some upper =>
      rw [hupper] at h
      cases h

end Circumstances

namespace Seeks

open Circumstances

variable {c : Circumstances} {instances : ObjectId → OrderedMap Oid Value} {visits : Nat}
  {range : Scope} {o : NextOutcome}

/-- What a search finds is an instance that the requester may be given, of an object whose
registration answers for the OID as long as it contains the OID. -/
theorem found_spec (h : Seeks c visits range o) (horderly : c.store.IsOrderly)
    (htruthful : c.IsTruthful instances) {e : Entry} {query : Query} {b : Binding}
    (ho : o = .found e query b) :
  e ∈ c.visible ∧ (instances e.object).get? b.oid = some b.value ∧ c.allowed b
    ∧ (e.scope.scope.contains b.oid → c.first (.exact b.oid) = some e)
  := by
  induction h with
  | unfinished | nothing _ | unavailable _ | ended _ _ _ _ => cases ho
  | denied _ _ _ _ ih => apply ih ho
  | passed _ _ _ _ _ ih => apply ih ho
  | @found _ range e r b query first answers step _ =>
      cases ho
      have hspec := htruthful.step_spec answers
      rw [step] at hspec
      obtain ⟨hinstance, hinside, hallowed, -⟩ := hspec
      exact ⟨((first_eq_some_iff horderly).mp first).1, hinstance, hallowed,
        first_exact horderly first hinside⟩

/-- A search that comes to an end leads to the first instance that is shown in its range. -/
theorem leads (h : Seeks c visits range o) (horderly : c.store.IsOrderly)
    (htruthful : c.IsTruthful instances) (hencloses : c.store.Encloses c.context instances)
    (hrange : range.upper = none) (havailable : o.isAvailable) (hfinished : o ≠ .unfinished) :
  c.Leads instances range o
  := by
  induction h with
  | unfinished => apply absurd rfl hfinished
  | unavailable _ => cases havailable
  | @nothing _ range first =>
      apply Leads.endOfView
      intro x v hx
      rw [← Bool.not_eq_true]
      intro hcontains
      obtain ⟨d, hd, -⟩ := hx.served
      obtain ⟨hvisible, hoverlaps, -⟩ := (first_eq_some_iff horderly).mp hd
      rw [← Scope.contains_iff_overlaps] at hoverlaps
      have hdisjoint := (first_eq_none_iff horderly).mp first d hvisible
      rw [Scope.overlaps_of_contains hoverlaps hcontains] at hdisjoint
      cases hdisjoint
  | @found _ range e r b query first answers step _ =>
      have hspec := htruthful.step_spec answers
      rw [step] at hspec
      obtain ⟨hinstance, hinside, hallowed, hleast⟩ := hspec
      have he := ((first_eq_some_iff horderly).mp first).1
      have hcontains := hencloses e he _ _ hinstance
      have htarget := first_exact horderly first hinside hcontains
      apply Leads.found _ htarget hinside
      · intro x v hx hxrange
        rcases hx.first_or horderly first hxrange with hxinstance | hbehind
        · apply hleast x v hxinstance hxrange
        · apply (Scope.lt_of_finish_le hcontains hbehind).le
      · exact ⟨⟨e, htarget, hinstance⟩, hallowed,
          not_hides_of_first horderly hrange first hinside hcontains⟩
  | @denied _ range e r x o first answers step rest ih =>
      have hspec := htruthful.step_spec answers
      rw [step] at hspec
      obtain ⟨v, hinstance, hinside, hdenied, hleast⟩ := hspec
      apply (ih hrange havailable hfinished).of_restart horderly hencloses hrange first hinstance
        hinside hdenied hleast
  | @ended _ range e r fault first answers step past =>
      have hspec := htruthful.step_spec answers
      rw [step] at hspec
      apply Leads.endOfView
      intro x v hx
      rw [← Bool.not_eq_true]
      intro hxrange
      rcases hx.first_or horderly first hxrange with hxinstance | hbehind
      · rw [hspec x v hxinstance] at hxrange
        cases hxrange
      · rw [finish_of_past_error past] at hbehind
        apply absurd (hbehind.trans_lt Cut.beside_lt_top) (lt_irrefl _)
  | @passed _ range beyond e r o first answers step past rest ih =>
      have hspec := htruthful.step_spec answers
      rw [step] at hspec
      have hupper := (past_spec past).2.trans hrange
      apply (ih hupper havailable hfinished).of_past horderly hrange first hspec past

end Seeks

/-! ### How far a search goes -/

namespace Circumstances

variable {c : Circumstances} {instances : ObjectId → OrderedMap Oid Value} {range smaller : Scope}
  {e : Entry}

/-- How often the search in a range may still visit a registration: once for each of its instances
in the range, and once more. -/
def pending (instances : ObjectId → OrderedMap Oid Value) (range : Scope) (e : Entry) : Nat :=
  (if e.scope.scope.overlaps range then 1 else 0)
    + ((instances e.object).entries.filter fun i => range.contains i.1).length

/-- How many registrations the search in a range may still visit. -/
def weight (c : Circumstances) (instances : ObjectId → OrderedMap Oid Value) (range : Scope) : Nat :=
  (c.visible.map (pending instances range)).sum

theorem weight_le_extent :
  c.weight instances range ≤ c.store.extent c.context instances
  := by
  apply List.sum_le_sum
  intro e _
  rw [pending, Nat.add_comm]
  apply Nat.add_le_add
  · apply List.length_filter_le
  · split
    · rfl
    · apply Nat.zero_le

/-- The first registration in a range is visited less often in the part of the range that starts at
a later place, when it does not overlap that part or has an instance outside it. So the whole
search visits fewer registrations there. -/
theorem weight_lt (h : c.store.IsOrderly) (hrange : range.upper = none)
    (hsmaller : smaller.upper = none) (hstart : range.start ≤ smaller.start) (he : e ∈ c.visible)
    (hless : e.scope.scope.overlaps range ∧ e.scope.scope.overlaps smaller = false
      ∨ ∃ x v, (instances e.object).get? x = some v ∧ range.contains x
        ∧ smaller.contains x = false) :
  c.weight instances smaller < c.weight instances range
  := by
  have hinside : ∀ x, smaller.contains x → range.contains x := by
    intro x
    rw [Scope.contains_iff_of_unbounded hsmaller, Scope.contains_iff_of_unbounded hrange]
    apply hstart.trans_lt
  have hoverlaps : ∀ e' ∈ c.visible, e'.scope.scope.overlaps smaller →
      e'.scope.scope.overlaps range := by
    intro e' he'
    rw [Scope.overlaps_iff_of_unbounded (inhabited h he') hsmaller,
      Scope.overlaps_iff_of_unbounded (inhabited h he') hrange]
    apply hstart.trans_lt
  have hvisit : ∀ e' ∈ c.visible, (if e'.scope.scope.overlaps smaller then 1 else 0)
      ≤ if e'.scope.scope.overlaps range then 1 else 0 := by
    intro e' he'
    split
    · rename_i hsome
      rw [if_pos (hoverlaps e' he' hsome)]
    · apply Nat.zero_le
  have hsublist : ∀ e' : Entry,
      ((instances e'.object).entries.filter fun i => smaller.contains i.1).Sublist
        ((instances e'.object).entries.filter fun i => range.contains i.1) :=
    fun e' => List.monotone_filter_right _ fun i => hinside i.1
  apply List.sum_lt_sum
  · intro e' he'
    apply Nat.add_le_add (hvisit e' he') (hsublist e').length_le
  · use e, he
    rcases hless with ⟨hrange', hsmaller'⟩ | ⟨x, v, hx, hxrange, hxsmaller⟩
    · apply Nat.add_lt_add_of_lt_of_le _ (hsublist e).length_le
      rw [hrange', hsmaller']
      decide
    · apply Nat.add_lt_add_of_le_of_lt (hvisit e he)
      apply lt_of_le_of_ne (hsublist e).length_le
      intro hlength
      have hmem : (x, v) ∈ (instances e.object).entries.filter fun i => range.contains i.1 :=
        List.mem_filter.mpr ⟨OrderedMap.mem_entries_iff.mpr hx, hxrange⟩
      rw [← (hsublist e).eq_of_length hlength, List.mem_filter] at hmem
      apply Bool.false_ne_true (hxsmaller.symm.trans hmem.2)

/-- After an instance fewer registrations are to be visited than after an OID before it. -/
theorem weight_after_lt (h : c.store.IsOrderly) {x y : Oid} {v : Value}
    (hshows : c.Shows instances y v) (hlt : x < y) :
  c.weight instances (.after y) < c.weight instances (.after x)
  := by
  obtain ⟨e, he, hinstance⟩ := hshows.served
  apply weight_lt h rfl rfl (Cut.beside_le_of_lt hlt) ((first_eq_some_iff h).mp he).1
  right
  use y, v, hinstance, Scope.contains_after_iff.mpr hlt
  rw [← Bool.not_eq_true, Scope.contains_after_iff]
  apply lt_irrefl

end Circumstances

namespace Seeks

variable {c : Circumstances} {instances : ObjectId → OrderedMap Oid Value} {visits : Nat}
  {range : Scope} {o : NextOutcome}

/-- A search that is given up has visited no more registrations than it may. -/
theorem visits_le (h : Seeks c visits range o) (horderly : c.store.IsOrderly)
    (htruthful : c.IsTruthful instances) (hrange : range.upper = none) (ho : o = .unfinished) :
  visits ≤ c.weight instances range
  := by
  induction h with
  | unfinished => apply Nat.zero_le
  | nothing _ | unavailable _ | found _ _ _ _ | ended _ _ _ _ => cases ho
  | @denied _ range e r x o first answers step rest ih =>
      have hspec := htruthful.step_spec answers
      rw [step] at hspec
      obtain ⟨v, hinstance, hinside, -, -⟩ := hspec
      have he := ((Circumstances.first_eq_some_iff horderly).mp first).1
      have hrestart : (range.restart x).upper = none := hrange
      apply Nat.succ_le_of_lt ((ih hrestart ho).trans_lt _)
      apply Circumstances.weight_lt horderly hrange hrestart _ he
      · right
        use x, v, hinstance, hinside
        rw [← Bool.not_eq_true, Scope.contains_restart_iff hrange]
        apply lt_irrefl
      · apply ((Scope.contains_iff_of_unbounded hrange).mp hinside).le
  | @passed _ range beyond e r o first answers step past rest ih =>
      obtain ⟨hstart, hupper⟩ := Circumstances.past_spec past
      rw [hrange] at hupper
      obtain ⟨he, hoverlaps, -⟩ := (Circumstances.first_eq_some_iff horderly).mp first
      have hinhabited := Circumstances.inhabited horderly he
      apply Nat.succ_le_of_lt ((ih hupper ho).trans_lt _)
      apply Circumstances.weight_lt horderly hrange hupper _ he
      · left
        use hoverlaps
        rw [← Bool.not_eq_true, Scope.overlaps_iff_of_unbounded hinhabited hupper, hstart]
        apply lt_irrefl
      · rw [hstart]
        apply ((Scope.overlaps_iff_of_unbounded hinhabited hrange).mp hoverlaps).le

/-- A search that may visit all registrations, each as often as it has instances and once more, is not
given up. -/
theorem ne_unfinished (h : Seeks c visits range o) (horderly : c.store.IsOrderly)
    (htruthful : c.IsTruthful instances) (hrange : range.upper = none)
    (hlimit : c.store.extent c.context instances < visits) :
  o ≠ .unfinished
  := by
  intro ho
  have hvisits := h.visits_le horderly htruthful hrange ho
  exact absurd (hvisits.trans Circumstances.weight_le_extent) hlimit.not_ge

end Seeks

end MibAgent
