import MibAgent.Registry.Audience

/-!
# The audience of an object

Audiences come into being and end while their numbers are used again for nobody else. What an
object has for an audience is therefore told by what happened to the object alone: its listeners
are those that joined since the last time the audience ended, in the order in which they joined,
without those that left.
-/

namespace MibAgent

/-- What may happen to the audience of an object. -/
inductive AudienceMove where
  | join (object : ObjectId) (listener : ListenerId)
  | leave (object : ObjectId) (listener : ListenerId)
  | dismiss (object : ObjectId)
deriving DecidableEq

namespace Audiences

/-- The listeners of an object, in the order in which they joined. -/
def listenersOf (a : Audiences) (object : ObjectId) : List ListenerId :=
  (a.of? object).elim [] a.membersOf

/-- The audiences after something happened to that of an object. -/
def move (a : Audiences) : AudienceMove → Audiences
  | .join object listener => a.join object listener
  | .leave object listener => (a.leave object listener).2
  | .dismiss object => a.dismiss object

/-- The audiences after some moves, at the beginning of which there was none. -/
def after (moves : List AudienceMove) : Audiences := moves.foldl move empty

/-- The listeners of an object after something happened to the audience of an object. -/
def attend (object : ObjectId) (present : List ListenerId) : AudienceMove → List ListenerId
  | .join other listener => if other = object then present ++ [listener] else present
  | .leave other listener => if other = object then present.erase listener else present
  | .dismiss other => if other = object then [] else present

/-- The listeners that an object has after some moves. -/
def attached (object : ObjectId) (moves : List AudienceMove) : List ListenerId :=
  moves.foldl (attend object) []

/-- Each object has an audience of its own, among those that there are. -/
structure IsSound (a : Audiences) : Prop where
  exists_members : ∀ object number, a.of? object = some number → number < a.members.size
  own : ∀ object object' number, a.of? object = some number → a.of? object' = some number →
    object = object'

theorem isSound_empty :
  empty.IsSound
  where
  exists_members := nofun
  own := nofun

theorem of?_insert (members : Array (List ListenerId)) (current : OrderedMap ObjectId Nat)
    (object object' : ObjectId) (number : Nat) :
  (Audiences.mk members (current.insert object number)).of? object'
    = if object' = object then some number else current.get? object'
  := by
  rw [of?, OrderedMap.get?_insert]
  simp only [Std.compare_eq_iff_eq]

theorem of?_erase (members : Array (List ListenerId)) (current : OrderedMap ObjectId Nat)
    (object object' : ObjectId) :
  (Audiences.mk members (current.erase object)).of? object'
    = if object' = object then none else current.get? object'
  := by
  rw [of?, OrderedMap.get?_erase]
  simp only [Std.compare_eq_iff_eq]

/-- Audiences stay sound when no object gets one that it did not have. -/
theorem IsSound.of_le {a b : Audiences} (h : a.IsSound) (hsize : a.members.size ≤ b.members.size)
    (hof : ∀ object number, b.of? object = some number → a.of? object = some number) :
  b.IsSound
  where
  exists_members object number hnumber :=
    Nat.lt_of_lt_of_le (h.exists_members object number (hof object number hnumber)) hsize
  own object object' number hnumber hnumber' :=
    h.own object object' number (hof _ _ hnumber) (hof _ _ hnumber')

theorem of?_dismiss (a : Audiences) (object object' : ObjectId) :
  (a.dismiss object).of? object' = if object' = object then none else a.of? object'
  := of?_erase a.members a.current object object'

theorem IsSound.dismiss {a : Audiences} (h : a.IsSound) (object : ObjectId) :
  (a.dismiss object).IsSound
  := by
  have hsize : a.members.size ≤ (a.dismiss object).members.size := Nat.le_refl _
  apply h.of_le hsize
  intro other number hnumber
  rw [of?_dismiss] at hnumber
  split at hnumber
  · cases hnumber
  · apply hnumber

theorem IsSound.join {a : Audiences} (h : a.IsSound) (object : ObjectId) (listener : ListenerId) :
  (a.join object listener).IsSound
  := by
  rw [Audiences.join]
  split
  · apply h.of_le
    · apply Nat.le_of_eq Array.size_modify.symm
    · intro other number hnumber
      apply hnumber
  · -- the new audience has a number that was not in use
    constructor
    · intro other number hnumber
      rw [of?_insert] at hnumber
      rw [Array.size_push]
      split at hnumber
      · cases hnumber
        apply Nat.lt_succ_self
      · apply Nat.lt_succ_of_lt (h.exists_members other number hnumber)
    · intro other other' number hnumber hnumber'
      rw [of?_insert] at hnumber hnumber'
      split at hnumber
      · rename_i heq
        cases hnumber
        split at hnumber'
        · rename_i heq'
          rw [heq, heq']
        · apply absurd (h.exists_members other' _ hnumber') (Nat.lt_irrefl _)
      · split at hnumber'
        · cases hnumber'
          apply absurd (h.exists_members other _ hnumber) (Nat.lt_irrefl _)
        · apply h.own other other' number hnumber hnumber'

theorem IsSound.leave {a : Audiences} (h : a.IsSound) (object : ObjectId) (listener : ListenerId) :
  (a.leave object listener).2.IsSound
  := by
  rw [Audiences.leave]
  split
  · apply h
  · apply h.of_le
    · apply Nat.le_of_eq Array.size_setIfInBounds.symm
    · intro other number hnumber
      dsimp only at hnumber
      split at hnumber
      · rw [of?_erase] at hnumber
        split at hnumber
        · cases hnumber
        · apply hnumber
      · apply hnumber

theorem listenersOf_of_eq {a b : Audiences} {object : ObjectId} (hof : b.of? object = a.of? object)
    (hmembers : ∀ number, a.of? object = some number → b.membersOf number = a.membersOf number) :
  b.listenersOf object = a.listenersOf object
  := by
  rw [listenersOf, listenersOf, hof]
  cases hnumber : a.of? object with
  | none => rfl
  | some number => apply hmembers number hnumber

theorem listenersOf_dismiss (a : Audiences) (object object' : ObjectId) :
  (a.dismiss object).listenersOf object' = attend object' (a.listenersOf object') (.dismiss object)
  := by
  rw [attend]
  split
  · rename_i heq
    rw [listenersOf, of?_dismiss, if_pos heq.symm]
    rfl
  · rename_i hne
    apply listenersOf_of_eq
    · rw [of?_dismiss, if_neg (Ne.symm hne)]
    · intro number _
      rfl

/-- The members of the audience of an object are changed, and no others are. -/
theorem IsSound.listenersOf_members {a : Audiences} (h : a.IsSound) {object : ObjectId}
    {number : Nat} (hnumber : a.of? object = some number) {members : Array (List ListenerId)}
    {changed : List ListenerId}
    (hmembers : ∀ other, members[other]?
      = if number = other then some changed else a.members[other]?) (object' : ObjectId) :
  (Audiences.mk members a.current).listenersOf object'
    = if object = object' then changed else a.listenersOf object'
  := by
  split
  · rename_i heq
    subst heq
    have hof : (Audiences.mk members a.current).of? object = some number := hnumber
    rw [listenersOf, hof, Option.elim_some, membersOf, hmembers, if_pos rfl]
    rfl
  · rename_i hne
    have hof : (Audiences.mk members a.current).of? object' = a.of? object' := rfl
    apply listenersOf_of_eq hof
    intro other hother
    have hdistinct : number ≠ other := by
      rintro rfl
      apply hne (h.own object object' number hnumber hother)
    rw [membersOf, hmembers, if_neg hdistinct]
    rfl

theorem IsSound.listenersOf_join {a : Audiences} (h : a.IsSound) (object object' : ObjectId)
    (listener : ListenerId) :
  (a.join object listener).listenersOf object'
    = attend object' (a.listenersOf object') (.join object listener)
  := by
  rw [attend, Audiences.join]
  cases hnumber : a.of? object with
  | some number =>
      have hlt := h.exists_members object number hnumber
      have hpresent : a.listenersOf object = a.members[number] := by
        rw [listenersOf, hnumber, Option.elim_some, membersOf, Array.getElem?_eq_getElem hlt]
        rfl
      have hmembers : ∀ other, (a.members.modify number (· ++ [listener]))[other]?
          = if number = other then some (a.listenersOf object ++ [listener])
            else a.members[other]? := by
        intro other
        rw [Array.getElem?_modify]
        split
        · rename_i heq
          subst heq
          rw [Array.getElem?_eq_getElem hlt, hpresent]
          rfl
        · rfl
      dsimp only
      rw [h.listenersOf_members hnumber hmembers]
      split
      · rename_i heq
        rw [heq]
      · rfl
  | none =>
      dsimp only
      split
      · rename_i heq
        subst heq
        rw [listenersOf, listenersOf, of?_insert, if_pos rfl, hnumber]
        simp [membersOf]
      · rename_i hne
        apply listenersOf_of_eq
        · rw [of?_insert, if_neg (Ne.symm hne)]
          rfl
        · intro other hother
          have hlt := h.exists_members object' other hother
          rw [membersOf, Array.getElem?_push, if_neg (Nat.ne_of_lt hlt)]
          rfl

theorem IsSound.listenersOf_leave {a : Audiences} (h : a.IsSound) (object object' : ObjectId)
    (listener : ListenerId) :
  (a.leave object listener).2.listenersOf object'
    = attend object' (a.listenersOf object') (.leave object listener)
  := by
  rw [attend, Audiences.leave]
  cases hnumber : a.of? object with
  | none =>
      dsimp only
      split
      · rename_i heq
        subst heq
        rw [listenersOf, hnumber]
        rfl
      · rfl
  | some number =>
      have hlt := h.exists_members object number hnumber
      have hpresent : a.listenersOf object = a.membersOf number := by
        rw [listenersOf, hnumber, Option.elim_some]
      let remaining := (a.membersOf number).erase listener
      have hstays : (Audiences.mk (a.members.setIfInBounds number remaining)
          a.current).listenersOf object' = if object = object' then remaining
            else a.listenersOf object' := by
        apply h.listenersOf_members hnumber
        intro other
        rw [Array.getElem?_setIfInBounds]
        simp only [hlt, if_true]
      have hattend : (if object = object' then (a.listenersOf object').erase listener
          else a.listenersOf object') = if object = object' then remaining
            else a.listenersOf object' := by
        split
        · rename_i heq
          rw [← heq, hpresent]
        · rfl
      dsimp only
      rw [hattend]
      cases hempty : ((a.membersOf number).erase listener).isEmpty with
      | false => apply hstays
      | true =>
          -- the audience ends, and an object without one has no listeners either
          change ((Audiences.mk (a.members.setIfInBounds number remaining)
            a.current).dismiss object).listenersOf object' = _
          rw [listenersOf_dismiss, attend, hstays]
          split
          · exact (List.isEmpty_iff.mp hempty).symm
          · rfl

theorem IsSound.move {a : Audiences} (h : a.IsSound) (x : AudienceMove) :
  (a.move x).IsSound
  := by
  cases x with
  | join object listener => apply h.join
  | leave object listener => apply h.leave
  | dismiss object => apply h.dismiss

theorem IsSound.listenersOf_move {a : Audiences} (h : a.IsSound) (object : ObjectId)
    (x : AudienceMove) :
  (a.move x).listenersOf object = attend object (a.listenersOf object) x
  := by
  cases x with
  | join object' listener => apply h.listenersOf_join
  | leave object' listener => apply h.listenersOf_leave
  | dismiss object' => apply listenersOf_dismiss

/-- The listeners of an object are those that its moves have attached. -/
theorem listenersOf_after (object : ObjectId) (moves : List AudienceMove) :
  (after moves).listenersOf object = attached object moves
  := by
  have hall : ∀ a : Audiences, a.IsSound →
      (moves.foldl move a).listenersOf object
        = moves.foldl (attend object) (a.listenersOf object) := by
    induction moves with
    | nil =>
        intro a _
        rfl
    | cons x rest ih =>
        intro a h
        rw [List.foldl_cons, List.foldl_cons, ih _ (h.move x), h.listenersOf_move]
  apply hall empty isSound_empty

end Audiences

end MibAgent
