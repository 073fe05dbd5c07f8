import MibAgent.Proofs.Intersections

/-!
# The order of what one context sees

A named context sees its own registrations and those of the default context. The contexts of these
tie, so their scopes are ordered by their ranks, and the rank tells them all apart: scopes of
different contexts by the context, and scopes of one context by the cuts between which they lie. So
their order is linear, and only the same scope is equal to a scope.
-/

namespace MibAgent

theorem Context.Ties.eq_of_isNone_eq {c d : Context} (h : Ties c d) (hnone : c.isNone = d.isNone) :
  c = d
  := by
  rcases h with heq | hc | hd
  · apply heq
  · rw [hc] at hnone ⊢
    apply (Option.isNone_iff_eq_none.mp hnone.symm).symm
  · rw [hd] at hnone ⊢
    apply Option.isNone_iff_eq_none.mp hnone

namespace ContextScope

variable {name : Octets} {a b c : ContextScope}

/-- The rank tells scopes apart whose contexts tie. -/
theorem eq_of_rank_eq (h : Context.Ties a.context b.context) (hrank : a.rank = b.rank) :
  a = b
  := by
  rw [rank, rank, toLex_inj, Prod.mk.injEq, toLex_inj, Prod.mk.injEq, toLex_inj, Prod.mk.injEq]
    at hrank
  obtain ⟨hoid, hdefault, hincluded, hfinish⟩ := hrank
  have hcontext := h.eq_of_isNone_eq hdefault
  have hscope : a.scope = b.scope := by
    apply Scope.ext_cuts _ hfinish
    apply Cut.beside_inj.mpr ⟨hoid, hincluded⟩
  cases a
  cases b
  cases hcontext
  cases hscope
  rfl

theorem order_eq_eq_iff (h : Context.Ties a.context b.context) :
  a.order b = .eq ↔ a = b
  := by
  rw [(order_compares h).eq_eq]
  constructor
  · apply eq_of_rank_eq h
  · intro hab
    rw [hab]

/-- The scope lies in the context with a name, or in the default one. -/
def IsSeenFrom (s : ContextScope) (name : Octets) : Prop :=
  s.context = some name ∨ s.context = none

theorem IsSeenFrom.ties (ha : a.IsSeenFrom name) (hb : b.IsSeenFrom name) :
  Context.Ties a.context b.context
  := by
  rcases ha with ha | ha
  · rcases hb with hb | hb
    · left
      rw [ha, hb]
    · right
      right
      apply hb
  · right
    left
    apply ha

/-- The scopes that one context sees are ordered linearly: the order reads backwards as it reads
forwards, it is transitive, of two scopes one does not come after the other, and only the same scope
is equal to a scope. With the same lower OID, scopes of the named context come before those of the
default one. -/
theorem order_linear (ha : a.IsSeenFrom name) (hb : b.IsSeenFrom name) (hc : c.IsSeenFrom name) :
  let order s t := (Key.registered s).order (.registered t)
  order b a = (order a b).swap
    ∧ (order a b ≠ .gt → order b c ≠ .gt → order a c ≠ .gt)
    ∧ (order a b ≠ .gt ∨ order b a ≠ .gt)
    ∧ (order a b = .eq ↔ a = b)
    ∧ (a.context = some name → b.context = none → a.scope.lower.oid = b.scope.lower.oid →
        order a b = .lt)
  := by
  intro order
  have hab := ha.ties hb
  refine ⟨order_swap hab, ?_, ?_, order_eq_eq_iff hab, ?_⟩
  · apply order_ne_gt_trans hab (hb.ties hc) (ha.ties hc)
  · change a.order b ≠ .gt ∨ b.order a ≠ .gt
    rw [(order_compares hab).ne_gt, (order_compares hab.symm).ne_gt]
    apply le_total
  · intro hnamed hdefault hoid
    apply (order_compares hab).eq_lt.mpr
    apply rank_lt_of_named hnamed hdefault hoid.le

/-- The subtree at `1.3` in a named context, the same one in the default context, and there also
everything from `1.3` on. -/
theorem nested_order_linear :
  let name : Octets := [0x63]
  let own : ContextScope := ⟨some name, .subtree ⟨[1, 3]⟩⟩
  let shared : ContextScope := ⟨none, .subtree ⟨[1, 3]⟩⟩
  let onward : ContextScope := ⟨none, .startingAt ⟨[1, 3]⟩⟩
  own.IsSeenFrom name ∧ shared.IsSeenFrom name ∧ onward.IsSeenFrom name
    ∧ own.order shared = .lt ∧ shared.order own = .gt ∧ own.order onward ≠ .gt
  := by
  intro name own shared onward
  have hown : own.IsSeenFrom name := .inl rfl
  have hshared : shared.IsSeenFrom name := .inr rfl
  have honward : onward.IsSeenFrom name := .inr rfl
  obtain ⟨hswap, htrans, -, -, hnamed⟩ := order_linear hown hshared honward
  have hlt : own.order shared = .lt := hnamed rfl rfl rfl
  refine ⟨hown, hshared, honward, hlt, ?_, ?_⟩
  · apply hswap.trans
    apply congrArg Ordering.swap hlt
  · apply htrans
    · apply ne_of_eq_of_ne hlt
      decide
    · decide

end ContextScope

end MibAgent
