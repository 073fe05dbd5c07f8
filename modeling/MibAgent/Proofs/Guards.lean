import MibAgent.InFlight
import Mathlib.Data.List.Induction

/-!
# The guards of requests being answered

Whoever begins a request gets a guard, and the record of the request is removed when the guard is
dropped. The record is found by the principal and the id of the request. When a record has expired
another request with the same principal and id may begin while the guard of the first one is still
there: dropping that guard then removes the record of the other request.
-/

namespace MibAgent

/-- The guard of a request that began, with the record that was made of the request. Guards are
told apart by their numbers. -/
structure Guard where
  number : Nat
  record : InFlightRecord
deriving DecidableEq

/-- What happens to the requests being answered. -/
inductive Occurrence where
  /-- A request began. -/
  | began (guard : Guard) (now : Nat)
  /-- A request was refused, for it is being answered already. -/
  | refused (principal : Octets) (requestId : Int32) (now : Nat)
  /-- A guard was dropped. -/
  | dropped (guard : Guard)
deriving DecidableEq

namespace Occurrence

/-- The guard of the request that began. -/
def guard? : Occurrence → Option Guard
  | began guard _ => some guard
  | _ => none

/-- The guard that was dropped. -/
def dropped? : Occurrence → Option Guard
  | dropped guard => some guard
  | _ => none

/-- When a request began or was refused. -/
def time? : Occurrence → Option Nat
  | began _ now | refused _ _ now => some now
  | dropped _ => none

end Occurrence

namespace Guard

/-- The guard belongs to a principal's request. -/
abbrev isOf (guard : Guard) (principal : Octets) (requestId : Int32) : Bool :=
  guard.record.isOf principal requestId

/-- Whether two guards belong to the same principal's requests with the same id. -/
def sharesKey (guard other : Guard) : Bool :=
  guard.isOf other.record.principal other.record.requestId

/-- Whether a record that has expired is removed because a request begins or is refused. -/
def isSwept (guard : Guard) (o : Occurrence) : Bool :=
  o.time?.any fun now => !guard.record.isLive now

/-- Whether the record is swept, or a guard with the same key is dropped. -/
def isRemoved (guard : Guard) (o : Occurrence) : Bool :=
  guard.isSwept o || o.dropped?.any guard.sharesKey

/-- Whether the record is swept, or the guard itself is dropped. -/
def isReleased (guard : Guard) (o : Occurrence) : Bool :=
  guard.isSwept o || o == .dropped guard

variable (guard other : Guard) (principal : Octets) (requestId : Int32) (now : Nat)

theorem sharesKey_self :
  guard.sharesKey guard
  := by
  rw [sharesKey, isOf, InFlightRecord.isOf, beq_self_eq_true, beq_self_eq_true]
  rfl

theorem isRemoved_began :
  guard.isRemoved (.began other now) = !guard.record.isLive now
  := Bool.or_false _

theorem isRemoved_refused :
  guard.isRemoved (.refused principal requestId now) = !guard.record.isLive now
  := Bool.or_false _

theorem isRemoved_dropped :
  guard.isRemoved (.dropped other) = guard.sharesKey other
  := rfl

theorem isReleased_began :
  guard.isReleased (.began other now) = !guard.record.isLive now
  := Bool.or_false _

theorem isReleased_refused :
  guard.isReleased (.refused principal requestId now) = !guard.record.isLive now
  := Bool.or_false _

theorem isReleased_dropped :
  guard.isReleased (.dropped other) = (Occurrence.dropped other == .dropped guard)
  := rfl

end Guard

namespace Occurrence

/-- The guards that are left, when each occurrence removes some and then adds that of a request
that begins. -/
def lasting (removes : Guard → Occurrence → Bool) (past : List Occurrence) : List Guard :=
  past.foldl (fun guards o => guards.filter (fun guard => !removes guard o) ++ o.guard?.toList) []

variable {removes : Guard → Occurrence → Bool} {past : List Occurrence} {guard : Guard}

theorem lasting_append (past : List Occurrence) (o : Occurrence) :
  lasting removes (past ++ [o])
    = (lasting removes past).filter (fun guard => !removes guard o) ++ o.guard?.toList
  := by
  rw [lasting, List.foldl_append]
  rfl

/-- A guard lasts when nothing that happened since its request began removes it. -/
theorem mem_lasting_iff :
  guard ∈ lasting removes past
    ↔ ∃ before o after, past = before ++ o :: after ∧ o.guard? = some guard
        ∧ ∀ later ∈ after, removes guard later = false
  := by
  induction past using List.reverseRecOn with
  | nil =>
      constructor
      · nofun
      · rintro ⟨before, o, after, heq, -, -⟩
        apply absurd heq.symm
        apply List.append_ne_nil_of_right_ne_nil
        apply List.cons_ne_nil
  | append_singleton past last ih =>
      rw [lasting_append, List.mem_append, List.mem_filter, ih]
      constructor
      · rintro (⟨⟨before, o, after, rfl, hguard, hafter⟩, hlast⟩ | hlast)
        · refine ⟨before, o, after ++ [last], ?_, hguard, ?_⟩
          · rw [List.append_assoc, List.cons_append]
          · rw [List.forall_mem_append, List.forall_mem_singleton]
            rw [Bool.not_eq_true'] at hlast
            exact ⟨hafter, hlast⟩
        · exact ⟨past, last, [], rfl, Option.mem_toList.mp hlast, List.forall_mem_nil _⟩
      · rintro ⟨before, o, after, heq, hguard, hafter⟩
        induction after using List.reverseRecOn with
        | nil =>
            obtain ⟨rfl, hlast⟩ := List.append_inj' heq rfl
            cases hlast
            right
            apply Option.mem_toList.mpr hguard
        | append_singleton after last' _ =>
            rw [← List.cons_append, ← List.append_assoc] at heq
            obtain ⟨rfl, hlast⟩ := List.append_inj' heq rfl
            cases hlast
            rw [List.forall_mem_append, List.forall_mem_singleton] at hafter
            left
            rw [Bool.not_eq_true']
            exact ⟨⟨before, o, after, rfl, hguard, hafter.1⟩, hafter.2⟩

end Occurrence

/-- The guard was given out and has not been dropped. -/
structure Guard.IsHeld (guard : Guard) (past : List Occurrence) : Prop where
  given : ∃ o ∈ past, o.guard? = some guard
  kept : .dropped guard ∉ past

/-- No two guards with the same key have been held at one time. -/
def Guard.KeptApart (past : List Occurrence) : Prop :=
  ∀ earlier, earlier <+: past → ∀ guard other : Guard, guard.IsHeld earlier →
    other.IsHeld earlier → guard.sharesKey other → guard = other

theorem Guard.KeptApart.left {past after : List Occurrence} (h : KeptApart (past ++ after)) :
  KeptApart past
  := fun earlier hearlier => h earlier (hearlier.trans (List.prefix_append past after))

/-- No time has passed beyond `now`. -/
def Occurrence.IsUntil (now : Nat) (past : List Occurrence) : Prop :=
  ∀ o ∈ past, ∀ time ∈ o.time?, time ≤ now

instance (now : Nat) (past : List Occurrence) : Decidable (Occurrence.IsUntil now past) :=
  inferInstanceAs (Decidable (∀ o ∈ past, ∀ time ∈ o.time?, time ≤ now))

/-- What happened so far, and the records that there are now. Time does not go back, the number of
a guard is new, and each guard is dropped once. -/
inductive History (maturity : Nat) : List Occurrence → InFlight → Prop where
  | opened : History maturity [] .empty
  | began {past : List Occurrence} {f f' : InFlight} {now : Nat} {principal : Octets}
      {requestId : Int32} (h : History maturity past f) (until' : Occurrence.IsUntil now past)
      (start : f.start now maturity principal requestId = (true, f')) :
      History maturity
        (past ++ [.began ⟨past.length, ⟨principal, requestId, now + maturity⟩⟩ now]) f'
  | refused {past : List Occurrence} {f f' : InFlight} {now : Nat} {principal : Octets}
      {requestId : Int32} (h : History maturity past f) (until' : Occurrence.IsUntil now past)
      (start : f.start now maturity principal requestId = (false, f')) :
      History maturity (past ++ [.refused principal requestId now]) f'
  | dropped {past : List Occurrence} {f : InFlight} {guard : Guard}
      (h : History maturity past f) (held : guard.IsHeld past) :
      History maturity (past ++ [.dropped guard])
        (f.finish guard.record.principal guard.record.requestId)

namespace InFlight

variable {f f' : InFlight} {now maturity : Nat} {principal : Octets} {requestId : Int32}

/-- A request begins or is refused according to what is left after expired records are removed. -/
theorem start_eq :
  f.start now maturity principal requestId
    = if ∃ r ∈ f.records, r.isLive now ∧ r.isOf principal requestId then (false, f.sweep now)
      else (true, ⟨(f.sweep now).records ++ [⟨principal, requestId, now + maturity⟩]⟩)
  := by
  rw [start]
  apply if_congr _ rfl rfl
  rw [List.any_eq_true]
  simp only [sweep, List.mem_filter, and_assoc]

theorem start_fst :
  (f.start now maturity principal requestId).1 = true
    ↔ ∀ r ∈ f.records, r.isOf principal requestId → r.deadline ≤ now
  := by
  rw [start_eq]
  split
  · rename_i hlive
    obtain ⟨r, hr, hlive, hkey⟩ := hlive
    constructor
    · nofun
    · intro hexpired
      have hle := hexpired r hr hkey
      have hlt : now < r.deadline := of_decide_eq_true hlive
      omega
  · rename_i hnone
    constructor
    · intro _ r hr hkey
      rw [← Nat.not_lt]
      intro hlt
      apply hnone
      exact ⟨r, hr, decide_eq_true hlt, hkey⟩
    · intro _
      rfl

theorem eq_of_start_eq_true (h : f.start now maturity principal requestId = (true, f')) :
  f' = ⟨(f.sweep now).records ++ [⟨principal, requestId, now + maturity⟩]⟩
  := by
  rw [start_eq] at h
  split at h
  · cases h
  · cases h
    rfl

theorem eq_of_start_eq_false (h : f.start now maturity principal requestId = (false, f')) :
  f' = f.sweep now
  := by
  rw [start_eq] at h
  split at h
  · cases h
    rfl
  · cases h

end InFlight

open Occurrence

namespace History

variable {maturity : Nat} {past : List Occurrence} {f : InFlight} {guard guard' : Guard}

/-- The records are those of the requests that began, unless they were swept or a guard with the
same key was dropped since. -/
theorem records_eq (h : History maturity past f) :
  f.records = (lasting Guard.isRemoved past).map (·.record)
  := by
  induction h with
  | opened => rfl
  | began h until' start ih =>
      rw [lasting_append, List.map_append, InFlight.eq_of_start_eq_true start, InFlight.sweep, ih,
        List.filter_map]
      simp only [Guard.isRemoved_began, Bool.not_not]
      rfl
  | refused h until' start ih =>
      rw [lasting_append, List.map_append, InFlight.eq_of_start_eq_false start, InFlight.sweep, ih,
        List.filter_map]
      simp only [Guard.isRemoved_refused, Bool.not_not]
      apply (List.append_nil _).symm
  | dropped h held ih =>
      rw [lasting_append, List.map_append, InFlight.finish, ih, List.filter_map]
      simp only [Guard.isRemoved_dropped]
      apply (List.append_nil _).symm

/-- Nothing that happened has to do with a guard that is given out later. -/
theorem fresh (h : History maturity past f) (hnumber : past.length ≤ guard.number) :
  ∀ o ∈ past, o.guard? ≠ some guard ∧ o ≠ .dropped guard
  := by
  induction h with
  | opened => apply List.forall_mem_nil
  | began h until' start ih =>
      rw [List.length_append, List.length_singleton] at hnumber
      rw [List.forall_mem_append, List.forall_mem_singleton]
      refine ⟨ih (by omega), ?_, nofun⟩
      rintro ⟨⟩
      apply Nat.not_succ_le_self _ hnumber
  | refused h until' start ih =>
      rw [List.length_append, List.length_singleton] at hnumber
      rw [List.forall_mem_append, List.forall_mem_singleton]
      exact ⟨ih (by omega), nofun, nofun⟩
  | dropped h held ih =>
      rw [List.length_append, List.length_singleton] at hnumber
      rw [List.forall_mem_append, List.forall_mem_singleton]
      have hpast := ih (by omega)
      refine ⟨hpast, nofun, ?_⟩
      rintro ⟨⟩
      obtain ⟨o, ho, hguard⟩ := held.given
      apply (hpast o ho).1 hguard

/-- A guard that is left after those that were dropped is still held. -/
theorem isHeld_of_mem_lasting (h : History maturity past f)
    (hlasting : guard ∈ lasting Guard.isReleased past) :
  guard.IsHeld past
  := by
  constructor
  · obtain ⟨before, o, after, rfl, hguard, -⟩ := mem_lasting_iff.mp hlasting
    exact ⟨o, List.mem_append_right _ (List.mem_cons_self), hguard⟩
  · induction h with
    | opened => cases hlasting
    | began h until' start ih =>
        rw [lasting_append, List.mem_append, List.mem_filter] at hlasting
        rw [List.mem_append, List.mem_singleton, not_or]
        refine ⟨?_, nofun⟩
        rcases hlasting with ⟨hlasting, -⟩ | hnew
        · apply ih hlasting
        · obtain rfl := Option.some.inj (Option.mem_toList.mp hnew)
          intro hdropped
          apply (h.fresh (Nat.le_refl _) _ hdropped).2 rfl
    | refused h until' start ih =>
        rw [lasting_append, List.mem_append, List.mem_filter] at hlasting
        rw [List.mem_append, List.mem_singleton, not_or]
        refine ⟨?_, nofun⟩
        apply ih (hlasting.resolve_right List.not_mem_nil).1
    | dropped h held ih =>
        rw [lasting_append, List.mem_append, List.mem_filter, Guard.isReleased_dropped] at hlasting
        rw [List.mem_append, List.mem_singleton, not_or]
        obtain ⟨hlasting, hother⟩ := hlasting.resolve_right List.not_mem_nil
        refine ⟨ih hlasting, ?_⟩
        intro heq
        rw [heq, beq_self_eq_true] at hother
        cases hother

/-- Each record stays until its own guard is dropped or it is swept, if no two guards with the same
key are held at any time. -/
theorem lasting_eq (h : History maturity past f) (hapart : Guard.KeptApart past) :
  lasting Guard.isRemoved past = lasting Guard.isReleased past
  := by
  induction h with
  | opened => rfl
  | began h until' start ih =>
      rw [lasting_append, lasting_append, ih hapart.left]
      simp only [Guard.isRemoved_began, Guard.isReleased_began]
  | refused h until' start ih =>
      rw [lasting_append, lasting_append, ih hapart.left]
      simp only [Guard.isRemoved_refused, Guard.isReleased_refused]
  | @dropped past f guard h held ih =>
      rw [lasting_append, lasting_append, ih hapart.left]
      congr 1
      apply List.filter_congr
      intro other hother
      rw [Guard.isRemoved_dropped, Guard.isReleased_dropped]
      congr 1
      rw [Bool.eq_iff_iff, beq_iff_eq]
      constructor
      · intro hshares
        have hother' := h.isHeld_of_mem_lasting hother
        rw [hapart past (List.prefix_append past _) other guard hother' held hshares]
      · rintro ⟨⟩
        apply guard.sharesKey_self

/-- Nothing that happened swept a record that has not expired. -/
theorem isSwept_eq_false {now : Nat} (huntil : IsUntil now past)
    (hlive : now < guard.record.deadline) :
  ∀ o ∈ past, guard.isSwept o = false
  := by
  intro o ho
  rw [Guard.isSwept, Option.any_eq_false]
  intro time htime
  have hle := huntil o ho time htime
  rw [Bool.not_eq_false', InFlightRecord.isLive, decide_eq_true_iff]
  omega

/-- A request begins when each earlier one with its key has expired, or some guard with that key
was dropped since. -/
theorem start_iff (h : History maturity past f) {now : Nat} (huntil : IsUntil now past)
    (principal : Octets) (requestId : Int32) :
  (f.start now maturity principal requestId).1 = true
    ↔ ∀ before o guard after, past = before ++ o :: after → o.guard? = some guard →
        guard.isOf principal requestId →
        guard.record.deadline ≤ now ∨ ∃ other, .dropped other ∈ after ∧ guard.sharesKey other
  := by
  rw [InFlight.start_fst, h.records_eq, List.forall_mem_map]
  constructor
  · rintro hexpired before o guard after rfl hguard hkey
    by_cases hdropped : ∃ other, .dropped other ∈ after ∧ guard.sharesKey other
    · right
      apply hdropped
    · left
      rw [← Nat.not_lt]
      intro hlive
      have hlasting : guard ∈ lasting Guard.isRemoved (before ++ o :: after) := by
        apply mem_lasting_iff.mpr
        refine ⟨before, o, after, rfl, hguard, ?_⟩
        intro later hlater
        have hmem := List.mem_append_right before (List.mem_cons_of_mem o hlater)
        rw [Guard.isRemoved, isSwept_eq_false huntil hlive later hmem, Bool.false_or]
        cases later with
        | dropped other =>
            apply Bool.eq_false_iff.mpr
            intro hshares
            apply hdropped
            exact ⟨other, hlater, hshares⟩
        | _ => rfl
      have hle := hexpired guard hlasting hkey
      omega
  · intro hexpired guard hlasting hkey
    obtain ⟨before, o, after, hpast, hguard, hafter⟩ := mem_lasting_iff.mp hlasting
    rcases hexpired before o guard after hpast hguard hkey with hle | ⟨other, hdropped, hshares⟩
    · apply hle
    · have hkept := hafter (.dropped other) hdropped
      rw [Guard.isRemoved_dropped, hshares] at hkept
      cases hkept

/-- A guard that is held, and whose record nothing swept, is left. -/
theorem mem_lasting_of_isHeld (hheld : guard.IsHeld past)
    (hswept : ∀ o ∈ past, guard.isSwept o = false) :
  guard ∈ lasting Guard.isReleased past
  := by
  obtain ⟨o, ho, hguard⟩ := hheld.given
  obtain ⟨before, after, rfl⟩ := List.append_of_mem ho
  apply mem_lasting_iff.mpr
  refine ⟨before, o, after, rfl, hguard, ?_⟩
  intro later hlater
  have hmem := List.mem_append_right before (List.mem_cons_of_mem o hlater)
  rw [Guard.isReleased, hswept later hmem, Bool.false_or, beq_eq_false_iff_ne]
  rintro rfl
  apply hheld.kept hmem

/-- The records of requests being answered are those of the requests that began and have neither
been swept nor lost their record to a guard that was dropped, be it their own or another one with
the same key. A request is refused when one with its key has such a record that has not expired.
As long as no two guards with the same key are held at one time, each record stays until its own
guard is dropped or it is swept, and no request begins while one with its key, which has not
expired, is still being answered. -/
theorem guards_spec (h : History maturity past f) :
  f.records = (lasting Guard.isRemoved past).map (·.record)
    ∧ (∀ now principal requestId, IsUntil now past →
        ((f.start now maturity principal requestId).1 = true
          ↔ ∀ before o guard after, past = before ++ o :: after → o.guard? = some guard →
              guard.isOf principal requestId → guard.record.deadline ≤ now
                ∨ ∃ other, .dropped other ∈ after ∧ guard.sharesKey other))
    ∧ (Guard.KeptApart past →
        f.records = (lasting Guard.isReleased past).map (·.record)
          ∧ ∀ now principal requestId, IsUntil now past →
              (f.start now maturity principal requestId).1 = true →
              ∀ guard : Guard, guard.IsHeld past → guard.isOf principal requestId →
                guard.record.deadline ≤ now)
  := by
  refine ⟨h.records_eq, fun now principal requestId huntil => h.start_iff huntil _ _, ?_⟩
  intro hapart
  have hrecords : f.records = (lasting Guard.isReleased past).map (·.record) := by
    rw [h.records_eq, h.lasting_eq hapart]
  use hrecords
  intro now principal requestId huntil hstart guard hheld hkey
  rw [InFlight.start_fst, hrecords, List.forall_mem_map] at hstart
  rw [← Nat.not_lt]
  intro hlive
  have hlasting := mem_lasting_of_isHeld hheld (isSwept_eq_false huntil hlive)
  have hle := hstart guard hlasting hkey
  omega

end History

namespace Guards

/-- A guard for the first request of someone without a name. -/
def first (number deadline : Nat) : Guard := ⟨number, ⟨[], 1, deadline⟩⟩

/-- A request begins, and arrives again while it is being answered. -/
def repeated : List Occurrence := [.began (first 0 5) 0, .refused [] 1 3]

/-- A request begins that expires at once, and another one with the same key begins before the
guard of the first one is dropped. -/
def overtaken : List Occurrence :=
  [.began (first 0 0) 0, .began (first 1 0) 0, .dropped (first 0 0)]

theorem eq_first_of_isHeld {earlier : List Occurrence} {guard : Guard}
    (hearlier : earlier <+: repeated) (hheld : guard.IsHeld earlier) :
  guard = first 0 5
  := by
  obtain ⟨o, ho, hguard⟩ := hheld.given
  have hmem := hearlier.subset ho
  rcases List.mem_cons.mp hmem with rfl | hmem
  · cases hguard
    rfl
  · cases List.mem_singleton.mp hmem
    cases hguard

theorem keptApart_repeated :
  Guard.KeptApart repeated
  := by
  intro earlier hearlier guard other hguard hother _
  rw [eq_first_of_isHeld hearlier hguard, eq_first_of_isHeld hearlier hother]

end Guards

/-- A request that arrives again is refused, and the record of the first one stays. -/
theorem History.repeated_spec :
  History 5 Guards.repeated ⟨[⟨[], 1, 5⟩]⟩ ∧ Guard.KeptApart Guards.repeated
    ∧ [⟨[], 1, 5⟩] = (lasting Guard.isReleased Guards.repeated).map (·.record)
    ∧ (Guards.first 0 5).IsHeld Guards.repeated
    ∧ (InFlight.start ⟨[⟨[], 1, 5⟩]⟩ 6 5 [] 1).1 = true
    ∧ (Guards.first 0 5).record.deadline ≤ 6
  := by
  have hfirst : History 5 [.began (Guards.first 0 5) 0] ⟨[⟨[], 1, 5⟩]⟩ :=
    History.opened.began (by decide) rfl
  have h : History 5 Guards.repeated ⟨[⟨[], 1, 5⟩]⟩ := hfirst.refused (by decide) rfl
  have hheld : (Guards.first 0 5).IsHeld Guards.repeated :=
    ⟨⟨_, List.mem_cons_self, rfl⟩, by decide⟩
  obtain ⟨-, -, hspec⟩ := h.guards_spec
  obtain ⟨hrecords, hexpired⟩ := hspec Guards.keptApart_repeated
  exact ⟨h, Guards.keptApart_repeated, hrecords, hheld, rfl,
    hexpired 6 [] 1 (by decide) rfl (Guards.first 0 5) hheld rfl⟩

/-- When the guard of a request that was overtaken is dropped, the record of the other request is
removed. The guard of that request is still held, and nothing has swept its record. -/
theorem History.overtaken_loses :
  ∃ f, History 0 Guards.overtaken f ∧ f.size = 0
    ∧ lasting Guard.isReleased Guards.overtaken = [Guards.first 1 0]
  := by
  have hfirst : History 0 [.began (Guards.first 0 0) 0] ⟨[⟨[], 1, 0⟩]⟩ :=
    History.opened.began (by decide) rfl
  have hsecond : History 0 [.began (Guards.first 0 0) 0, .began (Guards.first 1 0) 0]
      ⟨[⟨[], 1, 0⟩]⟩ :=
    hfirst.began (by decide) rfl
  exact ⟨_, hsecond.dropped ⟨⟨_, List.mem_cons_self, rfl⟩, by decide⟩, rfl, rfl⟩

end MibAgent
