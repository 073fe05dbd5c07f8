import MibAgent.Proofs.Instances

/-!
# Scopes and windows in one order

Registered scopes of one context are in order among themselves, and so are windows. A scope goes
by its start among scopes but by its finish among windows, so the two orders fit together only
where an earlier start means an earlier finish: scopes that overlap, or that have no room, may
get entangled with a window. Registrations of one context have room and do not overlap, so they
never do.
-/

namespace MibAgent

theorem Cut.beside_le_beside_of_le {x y : Oid} {a : Bool} (h : x ≤ y) :
  beside x a ≤ beside y a
  := by
  rcases h.lt_or_eq with hlt | rfl
  · apply beside_le_of_lt hlt
  · rfl

namespace ContextScope

/-- Scopes are parted when they are the same one or stand one after the other. -/
def Parted (s t : ContextScope) : Prop :=
  s = t ∨ s.scope.isEmpty = false ∧ t.scope.isEmpty = false ∧ s.scope.overlaps t.scope = false

instance (s t : ContextScope) : Decidable (s.Parted t) :=
  inferInstanceAs (Decidable (_ ∨ _))

variable {s t w : ContextScope}

theorem Parted.symm (h : s.Parted t) :
  t.Parted s
  := by
  rcases h with rfl | ⟨hs, ht, hdisjoint⟩
  · left
    rfl
  · right
    refine ⟨ht, hs, ?_⟩
    rw [Scope.overlaps_comm]
    apply hdisjoint

/-- Parted scopes finish in the order in which they start. -/
theorem Parted.finish_le (h : s.Parted t) (hcontext : s.context = t.context)
    (hrank : s.rank ≤ t.rank) :
  s.scope.finish ≤ t.scope.finish
  := by
  rcases h with rfl | ⟨hs, ht, hdisjoint⟩
  · rfl
  · rw [Scope.isEmpty_eq_false_iff] at hs ht
    rcases Scope.finish_le_start_or hs ht hdisjoint with hle | hle
    · apply hle.trans ht.le
    · have hbefore := rank_lt_of_start_lt hcontext.symm (ht.trans_le hle)
      apply absurd hrank hbefore.not_ge

/-- Of parted scopes, one that comes before another finishes before the other starts. -/
theorem Parted.finish_le_start (h : s.Parted t) (hcontext : s.context = t.context)
    (hrank : s.rank < t.rank) :
  s.scope.finish ≤ t.scope.start ∧ t.scope.start < t.scope.finish
  := by
  rcases h with rfl | ⟨hs, ht, hdisjoint⟩
  · apply absurd hrank (lt_irrefl _)
  · rw [Scope.isEmpty_eq_false_iff] at hs ht
    refine ⟨?_, ht⟩
    rw [finish_le_start_iff hcontext hs ht]
    exact ⟨(order_compares (.inl hcontext)).eq_lt.mpr hrank, hdisjoint⟩

theorem start_le_of_rank_le (hcontext : s.context = t.context) (h : s.rank ≤ t.rank) :
  s.scope.start ≤ t.scope.start
  := by
  by_contra hstart
  apply absurd h
  rw [not_le] at hstart ⊢
  apply rank_lt_of_start_lt hcontext.symm hstart

theorem oid_le_of_rank_le (h : s.rank ≤ t.rank) :
  s.scope.lower.oid ≤ t.scope.lower.oid
  := by
  rcases h.lt_or_eq with hlt | heq
  · apply oid_le_of_rank_lt hlt
  · apply le_of_eq
    have hfirst := congrArg (fun r => (ofLex r).1) heq
    apply hfirst

/-- A context scope does not come after a window when it ends with the OID where the window begins
at the latest. -/
theorem orderToWindow_ne_gt_iff (h : Context.Ties s.context w.context) :
  s.orderToWindow w ≠ .gt ↔ s.scope.finish ≤ .beside w.scope.lower.oid true
  := by
  rw [orderToWindow, Context.compareNamed_eq h, Scope.finish]
  cases s.scope.upper with
  | none => simp [Cut.beside_lt_top.ne]
  | some upper =>
      rw [Option.elim_some, Endpoint.finish, ← not_lt, Cut.beside_lt_beside]
      simp only [Ordering.then]
      cases hc : compare upper.oid w.scope.lower.oid with
      | lt =>
          rw [compare_lt_iff_lt] at hc
          simp [hc.not_gt, hc.ne']
      | eq =>
          rw [compare_eq_iff_eq] at hc
          have hends : ¬ true < upper.included := (Bool.le_true _).not_gt
          cases hboth : upper.included && w.scope.lower.included with
          | false => simp [hc, hends]
          | true => simp [hc, hends]
      | gt =>
          rw [compare_gt_iff_gt] at hc
          simp [hc]

/-- A window does not come after a context scope when it starts before the scope finishes. -/
theorem swap_orderToWindow_ne_gt_iff (h : Context.Ties s.context w.context) :
  (s.orderToWindow w).swap ≠ .gt ↔ w.scope.start < s.scope.finish
  := by
  rw [Ne, Ordering.swap_eq_gt, orderToWindow_eq_lt_iff h, not_le]

/-- A context scope and a window are equal when neither comes after the other. -/
theorem orderToWindow_eq_eq (hle : s.orderToWindow w ≠ .gt) (hge : (s.orderToWindow w).swap ≠ .gt) :
  s.orderToWindow w = .eq
  := by
  cases ho : s.orderToWindow w with
  | lt =>
      rw [ho] at hge
      apply absurd rfl hge
  | eq => rfl
  | gt => apply absurd ho hle

end ContextScope

namespace Key

open ContextScope

/-- The context of a key. -/
def context : Key → Context
  | registered s => s.context
  | window w => w.context

/-- How three keys of one context may be out of order although each is in order with the next:
two scopes that are not parted and a window are entangled, in whatever place the window stands,
and so are two windows that are equal to one scope. -/
inductive Tangled : Key → Key → Key → Prop where
  | last {s t w : ContextScope} (h : ¬ s.Parted t) :
    Tangled (registered s) (registered t) (window w)
  | first {s t w : ContextScope} (h : ¬ s.Parted t) :
    Tangled (window w) (registered s) (registered t)
  | between {s t w : ContextScope} (h : ¬ s.Parted t) :
    Tangled (registered s) (window w) (registered t)
  | meeting {s v w : ContextScope} (hv : s.orderToWindow v = .eq) (hw : s.orderToWindow w = .eq) :
    Tangled (window v) (registered s) (window w)

variable {a b c : Key} {s t v w : ContextScope}

/-- Keys of one context compare backwards as they compare. -/
theorem order_swap (h : a.context = b.context) :
  b.order a = (a.order b).swap
  := by
  cases a with
  | registered s =>
      cases b with
      | registered t => apply ContextScope.order_swap (.inl h)
      | window w => rfl
  | window v =>
      cases b with
      | registered s => apply Ordering.swap_swap.symm
      | window w => apply ContextScope.order_swap (.inl h)

/-! ### Three keys -/

/-- Parted scopes before a window. -/
theorem ne_gt_last (hst : s.context = t.context) (htw : t.context = w.context)
    (hparted : s.Parted t) (h : s.order t ≠ .gt) (h' : t.orderToWindow w ≠ .gt) :
  s.orderToWindow w ≠ .gt
  := by
  rw [(order_compares (.inl hst)).ne_gt] at h
  rw [orderToWindow_ne_gt_iff (.inl htw)] at h'
  rw [orderToWindow_ne_gt_iff (.inl (hst.trans htw))]
  apply (hparted.finish_le hst h).trans h'

/-- Parted scopes after a window. -/
theorem ne_gt_first (hws : s.context = w.context) (hst : s.context = t.context)
    (hparted : s.Parted t) (h : (s.orderToWindow w).swap ≠ .gt) (h' : s.order t ≠ .gt) :
  (t.orderToWindow w).swap ≠ .gt
  := by
  rw [(order_compares (.inl hst)).ne_gt] at h'
  rw [swap_orderToWindow_ne_gt_iff (.inl hws)] at h
  rw [swap_orderToWindow_ne_gt_iff (.inl (hst.symm.trans hws))]
  apply h.trans_le (hparted.finish_le hst h')

/-- Parted scopes before and after a window. -/
theorem ne_gt_between (hsw : s.context = w.context) (htw : t.context = w.context)
    (hparted : s.Parted t) (h : s.orderToWindow w ≠ .gt) (h' : (t.orderToWindow w).swap ≠ .gt) :
  s.order t ≠ .gt
  := by
  have hts : t.context = s.context := htw.trans hsw.symm
  rw [orderToWindow_ne_gt_iff (.inl hsw)] at h
  rw [swap_orderToWindow_ne_gt_iff (.inl htw)] at h'
  rw [(order_compares (.inl hts.symm)).ne_gt]
  by_contra hrank
  rw [not_le] at hrank
  obtain ⟨hbefore, hroom⟩ := hparted.symm.finish_le_start hts hrank
  -- the later scope has room up to the window's first OID only, so the earlier one ends before it
  have hearly := Cut.le_beside_of_lt (hbefore.trans_lt (hroom.trans_le h))
  apply not_lt_of_ge hearly
  apply lt_of_le_of_lt _ h'
  apply Cut.beside_mono
  apply Bool.false_le

/-- A scope before two windows. -/
theorem ne_gt_of_later_window (hsv : s.context = v.context) (hvw : v.context = w.context)
    (h : s.orderToWindow v ≠ .gt) (h' : v.order w ≠ .gt) :
  s.orderToWindow w ≠ .gt
  := by
  rw [orderToWindow_ne_gt_iff (.inl hsv)] at h
  rw [(order_compares (.inl hvw)).ne_gt] at h'
  rw [orderToWindow_ne_gt_iff (.inl (hsv.trans hvw))]
  apply h.trans
  apply Cut.beside_le_beside_of_le
  apply oid_le_of_rank_le h'

/-- A scope after two windows. -/
theorem ne_gt_of_earlier_window (hvw : v.context = w.context) (hsw : s.context = w.context)
    (h : v.order w ≠ .gt) (h' : (s.orderToWindow w).swap ≠ .gt) :
  (s.orderToWindow v).swap ≠ .gt
  := by
  rw [(order_compares (.inl hvw)).ne_gt] at h
  rw [swap_orderToWindow_ne_gt_iff (.inl hsw)] at h'
  rw [swap_orderToWindow_ne_gt_iff (.inl (hsw.trans hvw.symm))]
  apply (start_le_of_rank_le hvw h).trans_lt h'

/-- A scope between windows of which it does not equal both. -/
theorem ne_gt_around (hsv : s.context = v.context) (hsw : s.context = w.context)
    (hmeeting : ¬ (s.orderToWindow v = .eq ∧ s.orderToWindow w = .eq))
    (h : (s.orderToWindow v).swap ≠ .gt) (h' : s.orderToWindow w ≠ .gt) :
  v.order w ≠ .gt
  := by
  have hwv : w.context = v.context := hsw.symm.trans hsv
  rw [(order_compares (.inl hwv.symm)).ne_gt]
  by_contra hrank
  rw [not_le] at hrank
  apply hmeeting
  -- both windows begin with the OID where the scope ends
  have hv := (swap_orderToWindow_ne_gt_iff (.inl hsv)).mp h
  have hw := (orderToWindow_ne_gt_iff (.inl hsw)).mp h'
  have hoid : w.scope.lower.oid = v.scope.lower.oid := by
    apply (oid_le_of_rank_lt hrank).antisymm
    rcases Scope.start_lt_beside_iff.mp (hv.trans_le hw) with hlt | heq
    · apply hlt.le
    · rw [heq]
  constructor
  · apply orderToWindow_eq_eq _ h
    rw [orderToWindow_ne_gt_iff (.inl hsv), ← hoid]
    apply hw
  · apply orderToWindow_eq_eq h'
    rw [swap_orderToWindow_ne_gt_iff (.inl hsw)]
    apply (start_le_of_rank_le hwv hrank.le).trans_lt hv

theorem ne_gt_trans (hst : s.context = t.context) (htw : t.context = w.context)
    (h : s.order t ≠ .gt) (h' : t.order w ≠ .gt) :
  s.order w ≠ .gt
  := order_ne_gt_trans (.inl hst) (.inl htw) (.inl (hst.trans htw)) h h'

/-- Three keys of one context each in order with the next are in order unless they are tangled. -/
theorem ne_gt_or_tangled (hab : a.context = b.context) (hbc : b.context = c.context)
    (h : a.order b ≠ .gt) (h' : b.order c ≠ .gt) :
  a.order c ≠ .gt ∨ Tangled a b c
  := by
  rw [or_iff_not_imp_right]
  intro htangled
  cases a with
  | registered s =>
      cases b with
      | registered t =>
          cases c with
          | registered u => apply ne_gt_trans hab hbc h h'
          | window w =>
              apply ne_gt_last hab hbc _ h h'
              by_contra hparted
              apply htangled (.last hparted)
      | window w =>
          cases c with
          | registered t =>
              apply ne_gt_between hab hbc.symm _ h h'
              by_contra hparted
              apply htangled (.between hparted)
          | window v => apply ne_gt_of_later_window hab hbc h h'
  | window v =>
      cases b with
      | registered s =>
          cases c with
          | registered t =>
              apply ne_gt_first hab.symm hbc _ h h'
              by_contra hparted
              apply htangled (.first hparted)
          | window w =>
              apply ne_gt_around hab.symm hbc _ h h'
              rintro ⟨hv, hw⟩
              apply htangled (.meeting hv hw)
      | window w =>
          cases c with
          | registered s => apply ne_gt_of_earlier_window hab hbc.symm h h'
          | window u => apply ne_gt_trans hab hbc h h'

/-- Keys of one context compare backwards as they compare, and three of them each in order with the
next are in order unless they are tangled. -/
theorem order_spec (hab : a.context = b.context) (hbc : b.context = c.context) :
  b.order a = (a.order b).swap
    ∧ (a.order b ≠ .gt → b.order c ≠ .gt → a.order c ≠ .gt ∨ Tangled a b c)
  := ⟨order_swap hab, ne_gt_or_tangled hab hbc⟩

/-- A window at `1.2` lies behind the scope below `1.1` and before the one below `1.3`. -/
theorem parted_order_spec :
  let before : Key := .registered ⟨none, .subtree ⟨[1, 1]⟩⟩
  let probe : Key := .window ⟨none, .exact ⟨[1, 2]⟩⟩
  let behind : Key := .registered ⟨none, .subtree ⟨[1, 3]⟩⟩
  before.order probe ≠ .gt ∧ probe.order behind ≠ .gt
    ∧ probe.order before = (before.order probe).swap
    ∧ (before.order behind ≠ .gt ∨ Tangled before probe behind)
  := by
  intro before probe behind
  have hbefore : before.order probe ≠ .gt := by decide
  have hbehind : probe.order behind ≠ .gt := by decide
  obtain ⟨hswap, htrans⟩ := order_spec (a := before) (b := probe) (c := behind) rfl rfl
  exact ⟨hbefore, hbehind, hswap, htrans hbefore hbehind⟩

/-- Tangled keys may be out of order, and even go round in a circle. The scope from `1.1` up to
`1.9` comes before the one below `1.2`, which comes before the window at `1.5`, which comes before
the first scope. The window below `1.2` and the one at `1.2` both equal the scope from `1.1` up to
and including `1.2`, and yet the former comes after the latter. -/
theorem order_circular :
  (let outer : Key := .registered ⟨none, ⟨⟨⟨[1, 1]⟩, true⟩, some ⟨⟨[1, 9]⟩, false⟩⟩⟩
   let inner : Key := .registered ⟨none, .subtree ⟨[1, 2]⟩⟩
   let probe : Key := .window ⟨none, .exact ⟨[1, 5]⟩⟩
   outer.order inner = .lt ∧ inner.order probe = .lt ∧ probe.order outer = .lt
     ∧ outer.order probe = .gt)
    ∧ (let scope : Key := .registered ⟨none, ⟨⟨⟨[1, 1]⟩, true⟩, some ⟨⟨[1, 2]⟩, true⟩⟩⟩
       let broad : Key := .window ⟨none, .subtree ⟨[1, 2]⟩⟩
       let narrow : Key := .window ⟨none, .exact ⟨[1, 2]⟩⟩
       broad.order scope = .eq ∧ scope.order narrow = .eq ∧ broad.order narrow = .gt)
  := by decide

end Key

/-! ### Registrations -/

namespace Orderly

variable {c : Context} {entries : List Entry}

/-- Registrations of one context are parted. -/
theorem parted (h : Orderly c entries) :
  ∀ a ∈ entries, ∀ b ∈ entries, a.scope.Parted b.scope
  := by
  have hsymm : Std.Symm fun a b : Entry => a.scope.Parted b.scope := ⟨fun _ _ hab => hab.symm⟩
  apply List.Pairwise.forall_of_forall
  · intro a ha
    left
    rfl
  · apply h.separate.imp_of_mem
    intro a b ha hb hle
    have hroom := h.inhabited a ha
    have hroom' := h.inhabited b hb
    right
    rw [Scope.isEmpty_eq_false_iff, Scope.isEmpty_eq_false_iff]
    refine ⟨hroom, hroom', ?_⟩
    have htags := (h.tagged a ha).trans (h.tagged b hb).symm
    apply ((ContextScope.finish_le_start_iff htags hroom hroom').mp hle).2

/-- Keys that are compared with each other when a window is sought among registrations. -/
def Compared (entries : List Entry) (window : ContextScope) (k : Key) : Prop :=
  k = .window window ∨ ∃ e ∈ entries, k = .registered e.scope

/-- Among the registrations of one context and a window, keys each in order with the next are in
order. -/
theorem ne_gt_trans (h : Orderly c entries) {window : ContextScope} (hwindow : window.context = c)
    {x y z : Key} (hx : Compared entries window x) (hy : Compared entries window y)
    (hz : Compared entries window z) (hxy : x.order y ≠ .gt) (hyz : y.order z ≠ .gt) :
  x.order z ≠ .gt
  := by
  have hcontext : ∀ k, Compared entries window k → k.context = c := by
    rintro k (rfl | ⟨e, he, rfl⟩)
    · apply hwindow
    · apply h.tagged e he
  have hparted : ∀ s t, Compared entries window (.registered s) →
      Compared entries window (.registered t) → s.Parted t := by
    rintro s t (hs | ⟨e, he, hs⟩) (ht | ⟨e', he', ht⟩)
    · cases hs
    · cases hs
    · cases ht
    · cases hs
      cases ht
      apply h.parted e he e' he'
  have hsame := (hcontext x hx).trans (hcontext y hy).symm
  have hsame' := (hcontext y hy).trans (hcontext z hz).symm
  rcases Key.ne_gt_or_tangled hsame hsame' hxy hyz with hxz | htangled
  · apply hxz
  · cases htangled with
    | last hst => apply absurd (hparted _ _ hx hy) hst
    | first hst => apply absurd (hparted _ _ hy hz) hst
    | between hst => apply absurd (hparted _ _ hx hz) hst
    | meeting _ _ =>
        have hwindows : ∀ w, Compared entries window (.window w) → w = window := by
          rintro w (hw | ⟨e, -, he⟩)
          · apply Key.window.inj hw
          · cases he
        rw [hwindows _ hx, hwindows _ hz]
        apply (ContextScope.order_compares (.inl rfl)).ne_gt.mpr le_rfl

end Orderly

end MibAgent
