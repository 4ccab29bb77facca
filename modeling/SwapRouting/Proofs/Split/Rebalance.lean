import Mathlib.Algebra.BigOperators.Group.List.Basic
import Mathlib.Algebra.GroupWithZero.Nat
import SwapRouting.Proofs.Split.Ranking
import SwapRouting.Split.Rebalance

/-! What rebalancing keeps.

Every leg knows the worth of its share, and the worth of it after the gain or the loss it offers. A move
takes from one leg what it gives to another, so the shares always add up to the order, and it only
leads to shares whose worth was computed before. -/
namespace SwapRouting
set_option autoImplicit false

/-! ## Legs that know their worth -/

theorem quoteFor_of_worth_eq_ok {r : Route} {order : SwapOrder} {share : Nat} {w : Int}
    (h : r.worth order share = .ok w) :
    ∃ q, r.quoteFor order.method order.denomIn share = .ok q := by
  rw [Route.worth] at h
  cases hq : r.quoteFor order.method order.denomIn share with
  | error e =>
    rw [hq] at h
    cases h
  | ok q => exact ⟨q, rfl⟩

/-- A leg whose worth is that of its share, and whose gain and loss lead to the worth of the share one
step further up or down. -/
structure Leg.Measures (l : Leg) (order : SwapOrder) (step : Nat) : Prop where
  worth : l.route.worth order l.share = .ok l.worth
  gain : ∀ g, l.gain = some g → l.route.worth order (l.share + step) = .ok (l.worth + g)
  loss : ∀ x, l.loss = some x →
    step ≤ l.share ∧ l.route.worth order (l.share - step) = .ok (l.worth - x)

namespace Leg

@[simp] theorem measured_route (order : SwapOrder) (step : Nat) (l : Leg) :
    (l.measured order step).route = l.route := rfl

@[simp] theorem measured_share (order : SwapOrder) (step : Nat) (l : Leg) :
    (l.measured order step).share = l.share := rfl

@[simp] theorem measured_worth (order : SwapOrder) (step : Nat) (l : Leg) :
    (l.measured order step).worth = l.worth := rfl

theorem measured_measures {order : SwapOrder} {l : Leg}
    (h : l.route.worth order l.share = .ok l.worth) (step : Nat) :
    (l.measured order step).Measures order step := by
  refine ⟨h, ?_, ?_⟩
  · intro g hg
    simp only [measured] at hg
    split at hg
    · obtain ⟨w, hw, hwg⟩ := Option.map_eq_some_iff.1 hg
      rw [toOption_eq_some_iff] at hw
      have hsum : l.worth + g = w := by omega
      rw [measured_route, measured_share, measured_worth, hsum]
      exact hw
    · cases hg
  · intro x hx
    simp only [measured] at hx
    split at hx
    · next hstep =>
      obtain ⟨w, hw, hwx⟩ := Option.map_eq_some_iff.1 hx
      rw [toOption_eq_some_iff] at hw
      have hdiff : l.worth - x = w := by omega
      rw [measured_route, measured_share, measured_worth, hdiff]
      exact ⟨hstep, hw⟩
    · cases hx

end Leg

/-! ## Moves -/

theorem mem_of_firstGreatest {l : List (Nat × Int)} {c : Nat × Int}
    (h : firstGreatest l = some c) : c ∈ l := by
  induction l generalizing c with
  | nil => cases h
  | cons x r ih =>
    rw [firstGreatest] at h
    split at h
    · next hr =>
      cases h
      exact List.mem_cons_self ..
    · next b hb =>
      split at h
      · cases h
        exact List.mem_cons_of_mem _ (ih hb)
      · cases h
        exact List.mem_cons_self ..

/-- Nothing is greater than the entry that is chosen. -/
theorem exists_firstGreatest {l : List (Nat × Int)} {x : Nat × Int} (hx : x ∈ l) :
    ∃ c, firstGreatest l = some c ∧ x.2 ≤ c.2 := by
  induction l with
  | nil => cases hx
  | cons y r ih =>
    rw [firstGreatest]
    cases hr : firstGreatest r with
    | none =>
      rcases List.mem_cons.1 hx with rfl | hx
      · exact ⟨x, rfl, Int.le_refl _⟩
      · obtain ⟨c, hc, -⟩ := ih hx
        rw [hr] at hc
        cases hc
    | some b =>
      have hle : x.2 ≤ y.2 ∨ x.2 ≤ b.2 := by
        rcases List.mem_cons.1 hx with rfl | hx
        · exact Or.inl (Int.le_refl _)
        · obtain ⟨c, hc, hxc⟩ := ih hx
          rw [hr, Option.some.injEq] at hc
          exact Or.inr (hc ▸ hxc)
      simp only
      split
      · exact ⟨b, rfl, by omega⟩
      · exact ⟨y, rfl, by omega⟩

/-- A move that legs offer: one leg offers its gain, another one its loss. -/
structure Move.OfferedBy (m : Move) (legs : List Leg) : Prop where
  gain : ∃ l, legs[m.receiver]? = some l ∧ l.gain = some m.gain
  loss : ∃ l, legs[m.donor]? = some l ∧ l.loss = some m.loss
  ne : m.donor ≠ m.receiver

theorem receiver?_offers {legs : List Leg} {i : Nat} {g : Int} (h : receiver? legs = some (i, g)) :
    ∃ l, legs[i]? = some l ∧ l.gain = some g := by
  have hmem := mem_of_firstGreatest h
  obtain ⟨⟨l, j⟩, hlj, hg⟩ := List.mem_filterMap.1 hmem
  obtain ⟨x, hx, hpair⟩ := Option.map_eq_some_iff.1 hg
  rw [Prod.mk.injEq] at hpair
  obtain ⟨rfl, rfl⟩ := hpair
  exact ⟨l, List.mem_zipIdx_iff_getElem?.1 hlj, hx⟩

theorem donor?_offers {legs : List Leg} {r i : Nat} {g : Int} (h : donor? r legs = some (i, g)) :
    i ≠ r ∧ ∃ l, legs[i]? = some l ∧ l.loss = some (-g) := by
  have hmem := mem_of_firstGreatest h
  obtain ⟨⟨l, j⟩, hlj, hg⟩ := List.mem_filterMap.1 hmem
  simp only at hg
  split at hg
  · cases hg
  · next hne =>
    obtain ⟨x, hx, hpair⟩ := Option.map_eq_some_iff.1 hg
    rw [Prod.mk.injEq] at hpair
    obtain ⟨rfl, rfl⟩ := hpair
    exact ⟨hne, l, List.mem_zipIdx_iff_getElem?.1 hlj, by rw [hx, Int.neg_neg]⟩

theorem move?_offered {epsilon : Nat} {legs : List Leg} {m : Move}
    (h : move? epsilon legs = some m) : m.OfferedBy legs := by
  simp only [move?, Option.bind_eq_bind, Option.bind_eq_some_iff] at h
  obtain ⟨⟨r, gain⟩, hr, ⟨d, negLoss⟩, hd, hif⟩ := h
  simp only at hd hif
  split at hif
  · cases hif
    obtain ⟨hne, hloss⟩ := donor?_offers hd
    exact ⟨receiver?_offers hr, hloss, hne⟩
  · cases hif

theorem getElem?_moved (order : SwapOrder) (step : Nat) (m : Move) (legs : List Leg) (i : Nat) :
    (moved order step m legs)[i]? = legs[i]?.map fun l =>
      if i = m.receiver then
        ({ l with share := l.share + step, worth := l.worth + m.gain } : Leg).measured order step
      else if i = m.donor then
        ({ l with share := l.share - step, worth := l.worth - m.loss } : Leg).measured order step
      else l := by
  rw [moved, List.getElem?_mapIdx]

theorem moved_measures {order : SwapOrder} {step : Nat} {m : Move} {legs : List Leg}
    (hm : m.OfferedBy legs) (h : ∀ l ∈ legs, l.Measures order step) :
    ∀ l ∈ moved order step m legs, l.Measures order step := by
  intro l hl
  obtain ⟨i, hi⟩ := List.mem_iff_getElem?.1 hl
  rw [getElem?_moved] at hi
  obtain ⟨x, hx, hxl⟩ := Option.map_eq_some_iff.1 hi
  have hmeasures := h x (List.mem_of_getElem? hx)
  subst hxl
  split
  · next hreceiver =>
    obtain ⟨y, hy, hgain⟩ := hm.gain
    rw [← hreceiver, hx, Option.some.injEq] at hy
    exact Leg.measured_measures (hmeasures.gain _ (hy ▸ hgain)) step
  · split
    · next hdonor =>
      obtain ⟨y, hy, hloss⟩ := hm.loss
      rw [← hdonor, hx, Option.some.injEq] at hy
      exact Leg.measured_measures (hmeasures.loss _ (hy ▸ hloss)).2 step
    · exact hmeasures

theorem map_route_moved (order : SwapOrder) (step : Nat) (m : Move) (legs : List Leg) :
    (moved order step m legs).map (·.route) = legs.map (·.route) := by
  apply List.ext_getElem?
  intro i
  rw [List.getElem?_map, getElem?_moved, List.getElem?_map, Option.map_map]
  congr 1
  funext l
  simp only [Function.comp_apply]
  split
  · rfl
  · split <;> rfl

/-! ## The sum of the shares -/

theorem sum_modify_add {M : Type} [AddCommMonoid M] {l : List M} {i : Nat} (h : i < l.length)
    (n : M) : (l.modify i (· + n)).sum = l.sum + n := by
  induction l generalizing i with
  | nil => simp at h
  | cons a r ih =>
    cases i with
    | zero => rw [List.modify_zero_cons, List.sum_cons, List.sum_cons, add_right_comm]
    | succ i =>
      rw [List.modify_succ_cons, List.sum_cons, List.sum_cons, ih (by simpa using h), add_assoc]

theorem sum_modify_sub {l : List Nat} {i a n : Nat} (h : l[i]? = some a) (hn : n ≤ a) :
    (l.modify i (· - n)).sum + n = l.sum := by
  induction l generalizing i with
  | nil => simp at h
  | cons b r ih =>
    cases i with
    | zero =>
      obtain rfl : b = a := Option.some.inj h
      rw [List.modify_zero_cons, List.sum_cons, List.sum_cons]
      omega
    | succ i =>
      have hrest : (r.modify i (· - n)).sum + n = r.sum := ih h
      rw [List.modify_succ_cons, List.sum_cons, List.sum_cons]
      omega

/-- A field of the legs changes at the receiver and at the donor only. -/
theorem map_moved {α : Type} {order : SwapOrder} {step : Nat} {m : Move} (field : Leg → α)
    (up down : α → α) (hne : m.donor ≠ m.receiver)
    (hup : ∀ l : Leg, field (({ l with share := l.share + step, worth := l.worth + m.gain } :
      Leg).measured order step) = up (field l))
    (hdown : ∀ l : Leg, field (({ l with share := l.share - step, worth := l.worth - m.loss } :
      Leg).measured order step) = down (field l)) (legs : List Leg) :
    (moved order step m legs).map field
      = ((legs.map field).modify m.donor down).modify m.receiver up := by
  apply List.ext_getElem?
  intro i
  rw [List.getElem?_map, getElem?_moved, List.getElem?_modify, List.getElem?_modify,
    List.getElem?_map]
  cases legs[i]? with
  | none => simp
  | some l =>
    simp only [Option.map_some]
    by_cases hr : i = m.receiver
    · subst hr
      simp [hne, hup]
    · by_cases hd : i = m.donor
      · subst hd
        simp [hr, Ne.symm hr, hdown]
      · simp [hr, hd, Ne.symm hr, Ne.symm hd]

theorem map_share_moved (order : SwapOrder) (step : Nat) {m : Move} (hne : m.donor ≠ m.receiver)
    (legs : List Leg) : (moved order step m legs).map (·.share)
      = ((legs.map (·.share)).modify m.donor (· - step)).modify m.receiver (· + step) :=
  map_moved (·.share) (· + step) (· - step) hne (fun _ => rfl) (fun _ => rfl) legs

theorem sum_share_moved {order : SwapOrder} {step : Nat} {m : Move} {legs : List Leg}
    (hm : m.OfferedBy legs) (h : ∀ l ∈ legs, l.Measures order step) :
    ((moved order step m legs).map (·.share)).sum = (legs.map (·.share)).sum := by
  obtain ⟨receiver, hreceiver, -⟩ := hm.gain
  obtain ⟨donor, hdonor, hloss⟩ := hm.loss
  have hstep := ((h donor (List.mem_of_getElem? hdonor)).loss _ hloss).1
  have hlt : m.receiver < legs.length := (List.getElem?_eq_some_iff.1 hreceiver).1
  have hsub := sum_modify_sub (l := legs.map (·.share)) (i := m.donor) (a := donor.share)
    (by rw [List.getElem?_map, hdonor]; rfl) hstep
  rw [map_share_moved order step hm.ne, sum_modify_add (by simpa using hlt)]
  exact hsub

/-! ## Rounds -/

/-- A balance that shares the whole order among these routes. -/
structure Balance.Shares (b : Balance) (order : SwapOrder) (routes : List Route) : Prop where
  routes : b.legs.map (·.route) = routes
  total : (b.legs.map (·.share)).sum = order.amount
  measures : ∀ l ∈ b.legs, l.Measures order b.step

namespace Balance

theorem round_shares {b : Balance} {order : SwapOrder} {routes : List Route}
    (h : b.Shares order routes) (epsilon : Nat) : (b.round order epsilon).1.Shares order routes := by
  rw [Balance.round]
  split
  · next m hm =>
    have hoffered := move?_offered hm
    refine ⟨?_, ?_, moved_measures hoffered h.measures⟩
    · rw [map_route_moved]
      exact h.routes
    · rw [sum_share_moved hoffered h.measures]
      exact h.total
  · split
    · exact ⟨h.routes, h.total, h.measures⟩
    · refine ⟨?_, ?_, ?_⟩
      · rw [List.map_map]
        exact h.routes
      · rw [List.map_map]
        exact h.total
      · intro l hl
        obtain ⟨x, hx, rfl⟩ := List.mem_map.1 hl
        exact Leg.measured_measures (h.measures x hx).worth _

/-- What every round keeps holds however many rounds there are and wherever they are cut short. -/
theorem run_invariant {ctx : Context} {order : SwapOrder} {epsilon : Nat} {P : Balance → Prop}
    (hround : ∀ b, P b → P (b.round order epsilon).1) {b : Balance} (h : P b) (n : Nat) :
    P (b.run ctx order epsilon n) := by
  induction n generalizing b with
  | zero => exact h
  | succ n ih =>
    rw [Balance.run]
    split
    · exact h
    · simp only
      split
      · exact ih (hround b h)
      · exact hround b h

/-- The shares add up to the order after every run. -/
theorem run_shares {ctx : Context} {order : SwapOrder} {routes : List Route} {epsilon n : Nat}
    {b : Balance} (h : b.Shares order routes) : (b.run ctx order epsilon n).Shares order routes :=
  run_invariant (P := fun b => b.Shares order routes) (fun _ h => round_shares h epsilon) h n

end Balance

/-! ## Equal shares -/

theorem sum_map_range_ite_lt (m n : Nat) :
    ((List.range n).map fun i => if i < m then 1 else 0).sum = min m n := by
  induction n with
  | zero => simp
  | succ n ih =>
    rw [List.range_succ, List.map_append, List.sum_append, ih]
    simp only [List.map_cons, List.map_nil, List.sum_cons, List.sum_nil]
    split <;> omega

theorem sum_equalShares {n : Nat} (hn : 0 < n) (total : Nat) : (equalShares total n).sum = total := by
  have hlt := Nat.mod_lt total hn
  rw [equalShares, List.sum_map_add, sum_map_range_ite_lt, List.map_const', List.sum_replicate,
    List.length_range, Nat.nsmul_eq_mul, Nat.min_eq_left hlt.le]
  exact Nat.div_add_mod total n

theorem map_fst_withEqualShares (total : Nat) (routes : List Route) :
    (withEqualShares total routes).map (·.1) = routes := by
  rw [withEqualShares, List.map_fst_zip]
  simp [equalShares]

theorem map_snd_withEqualShares (total : Nat) (routes : List Route) :
    (withEqualShares total routes).map (·.2) = equalShares total routes.length := by
  rw [withEqualShares, List.map_snd_zip]
  simp [equalShares]

theorem quotable_sublist (order : SwapOrder) (routes : List Route) :
    (quotable order routes).Sublist routes := by
  have h := (List.filter_sublist (p := fun s => (startingLeg? order s).isSome)
    (l := withEqualShares order.amount routes)).map (·.1)
  rw [map_fst_withEqualShares] at h
  exact h

/-! ## The start -/

/-- The routes that are left when those that cannot be quoted for an equal share are dropped, again and
again, until all the others can. There are at least two of them. -/
structure Survivors (order : SwapOrder) (routes kept : List Route) : Prop where
  dropped : ∃ n, (quotable order)^[n] routes = kept
  stable : quotable order kept = kept
  two_le : 2 ≤ kept.length

theorem Survivors.sublist {order : SwapOrder} {routes kept : List Route}
    (h : Survivors order routes kept) : kept.Sublist routes := by
  obtain ⟨n, rfl⟩ := h.dropped
  clear h
  induction n generalizing routes with
  | zero => exact List.Sublist.refl _
  | succ n ih => exact ih.trans (quotable_sublist order routes)

/-- Legs with equal shares of the order among these routes that know the worth of their shares. -/
structure StartingLegs (legs : List Leg) (order : SwapOrder) (routes : List Route) : Prop where
  shares : legs.map (fun l => (l.route, l.share)) = withEqualShares order.amount routes
  worth : ∀ l ∈ legs, l.route.worth order l.share = .ok l.worth

namespace StartingLegs

variable {legs : List Leg} {order : SwapOrder} {routes : List Route}

theorem routes_eq (h : StartingLegs legs order routes) : legs.map (·.route) = routes := by
  rw [← map_fst_withEqualShares order.amount routes, ← h.shares, List.map_map]
  rfl

theorem total (h : StartingLegs legs order routes) (hpos : 0 < routes.length) :
    (legs.map (·.share)).sum = order.amount := by
  have hshares : legs.map (·.share) = equalShares order.amount routes.length := by
    rw [← map_snd_withEqualShares, ← h.shares, List.map_map]
    rfl
  rw [hshares]
  exact sum_equalShares hpos _

end StartingLegs

theorem startingLeg?_eq_some {order : SwapOrder} {s : Route × Nat} {l : Leg}
    (h : startingLeg? order s = some l) :
    l.route = s.1 ∧ l.share = s.2 ∧ s.1.worth order s.2 = .ok l.worth := by
  obtain ⟨w, hw, rfl⟩ := Option.map_eq_some_iff.1 h
  exact ⟨rfl, rfl, toOption_eq_some_iff.1 hw⟩

/-- Where every share has a leg, the legs are those of the shares. -/
theorem map_filterMap_startingLeg? {order : SwapOrder} {shares : List (Route × Nat)}
    (h : ∀ s ∈ shares, (startingLeg? order s).isSome) :
    (shares.filterMap (startingLeg? order)).map (fun l => (l.route, l.share)) = shares := by
  induction shares with
  | nil => rfl
  | cons s rest ih =>
    obtain ⟨l, hl⟩ := Option.isSome_iff_exists.1 (h s (List.mem_cons_self ..))
    obtain ⟨hroute, hshare, -⟩ := startingLeg?_eq_some hl
    rw [List.filterMap_cons_some hl, List.map_cons, hroute, hshare,
      ih fun x hx => h x (List.mem_cons_of_mem _ hx)]

/-- Where all routes can be quoted for their equal shares none is dropped. -/
theorem quotable_eq_self {order : SwapOrder} {routes : List Route}
    (h : (withEqualShares order.amount routes).all (fun s => (startingLeg? order s).isSome) = true) :
    quotable order routes = routes := by
  rw [quotable, List.filter_eq_self.2 (List.all_eq_true.1 h)]
  exact map_fst_withEqualShares order.amount routes

theorem startingLegs_spec {order : SwapOrder} {routes : List Route} {legs : List Leg}
    (h : (startingLegs order routes).1 = .ok (some legs)) :
    ∃ kept, Survivors order routes kept ∧ StartingLegs legs order kept := by
  induction routes using startingLegs.induct order with
  | case1 routes hlt =>
    rw [startingLegs, if_pos hlt] at h
    cases h
  | case2 routes hlt shares hrange =>
    rw [startingLegs, if_neg hlt] at h
    simp only [shares] at hrange
    rw [if_pos hrange] at h
    cases h
  | case3 routes hlt shares hrange hall =>
    rw [startingLegs, if_neg hlt] at h
    simp only [shares] at hrange hall
    rw [if_neg hrange, dif_pos hall] at h
    simp only [Except.ok.injEq, Option.some.injEq] at h
    have hpairs := map_filterMap_startingLeg? (List.all_eq_true.1 hall)
    rw [h] at hpairs
    refine ⟨routes, ⟨⟨0, rfl⟩, quotable_eq_self hall, by omega⟩, hpairs, ?_⟩
    intro l hl
    rw [← h] at hl
    obtain ⟨s, -, hs⟩ := List.mem_filterMap.1 hl
    obtain ⟨hroute, hshare, hworth⟩ := startingLeg?_eq_some hs
    rw [hroute, hshare]
    exact hworth
  | case4 routes hlt shares hrange hall ih =>
    rw [startingLegs, if_neg hlt] at h
    simp only [shares] at hrange hall
    rw [if_neg hrange, dif_neg hall] at h
    obtain ⟨kept, ⟨⟨n, hn⟩, hstable, htwo⟩, hlegs⟩ := ih h
    exact ⟨kept, ⟨⟨n + 1, hn⟩, hstable, htwo⟩, hlegs⟩

theorem meetsDecimalRange_eq_false {order : SwapOrder} {s : Route × Nat} (h : s.1.FeesInRange) :
    meetsDecimalRange order s = false := by
  rw [meetsDecimalRange]
  split
  · next hworth =>
    rw [Route.worth] at hworth
    cases hq : s.1.quoteFor order.method order.denomIn s.2 with
    | error e =>
      rw [hq] at hworth
      cases hworth
      exact absurd hq (Route.quoteFor_ne_decimalRange h _ _ _)
    | ok q =>
      rw [hq] at hworth
      cases hworth
  · rfl

theorem startingLegs_isOk (order : SwapOrder) {routes : List Route}
    (h : ∀ r ∈ routes, r.FeesInRange) : ∃ legs, (startingLegs order routes).1 = .ok legs := by
  induction routes using startingLegs.induct order with
  | case1 routes hlt =>
    rw [startingLegs, if_pos hlt]
    exact ⟨none, rfl⟩
  | case2 routes hlt shares hrange =>
    obtain ⟨s, hs, hmeets⟩ := List.any_eq_true.1 hrange
    have hroute : s.1 ∈ routes := by
      rw [← map_fst_withEqualShares order.amount routes]
      exact List.mem_map_of_mem hs
    rw [meetsDecimalRange_eq_false (h s.1 hroute)] at hmeets
    cases hmeets
  | case3 routes hlt shares hrange hall =>
    rw [startingLegs, if_neg hlt]
    simp only [shares] at hrange hall
    rw [if_neg hrange, dif_pos hall]
    exact ⟨_, rfl⟩
  | case4 routes hlt shares hrange hall ih =>
    rw [startingLegs, if_neg hlt]
    simp only [shares] at hrange hall
    rw [if_neg hrange, dif_neg hall]
    exact ih fun r hr => h r ((quotable_sublist order routes).subset hr)

/-! ## All of it -/

/-- The balance that the rounds start from: legs with the first step measured. -/
def Balance.opening (limits : SplitLimits) (order : SwapOrder) (legs : List Leg) : Balance :=
  ⟨legs.map (Leg.measured order (firstStep limits order.amount legs.length)),
    firstStep limits order.amount legs.length, 0⟩

theorem rebalance_eq_some_iff {ctx : Context} {limits : SplitLimits} {order : SwapOrder}
    {routes : List Route} {b : Balance} :
    (rebalance ctx limits order routes).1 = .ok (some b) ↔
      ∃ legs, (startingLegs order routes).1 = .ok (some legs) ∧
        (Balance.opening limits order legs).run ctx order limits.epsilon limits.maxIterations = b := by
  rw [rebalance]
  rcases hstart : (startingLegs order routes).1 with e | _ | legs
  · simp
  · simp
  · simp [Balance.opening]

theorem StartingLegs.shares_opening {legs : List Leg} {order : SwapOrder} {routes : List Route}
    (h : StartingLegs legs order routes) (hpos : 0 < routes.length) (limits : SplitLimits) :
    (Balance.opening limits order legs).Shares order routes := by
  refine ⟨?_, ?_, ?_⟩
  · rw [Balance.opening, List.map_map]
    exact h.routes_eq
  · rw [Balance.opening, List.map_map]
    exact h.total hpos
  · intro l hl
    obtain ⟨x, hx, rfl⟩ := List.mem_map.1 hl
    exact Leg.measured_measures (h.worth x hx) _

/-- Whatever the limits are and whenever the context ends, the balance shares the whole order among some
of the routes. -/
theorem rebalance_spec {ctx : Context} {limits : SplitLimits} {order : SwapOrder}
    {routes : List Route} {b : Balance}
    (h : (rebalance ctx limits order routes).1 = .ok (some b)) :
    ∃ kept, kept.Sublist routes ∧ b.Shares order kept := by
  obtain ⟨legs, hstart, rfl⟩ := rebalance_eq_some_iff.1 h
  obtain ⟨kept, hkept, hlegs⟩ := startingLegs_spec hstart
  have hpos : 0 < kept.length := Nat.lt_of_lt_of_le (by decide) hkept.two_le
  exact ⟨kept, hkept.sublist, Balance.run_shares (hlegs.shares_opening hpos limits)⟩

theorem rebalance_isOk (ctx : Context) (limits : SplitLimits) (order : SwapOrder)
    {routes : List Route} (h : ∀ r ∈ routes, r.FeesInRange) :
    ∃ b, (rebalance ctx limits order routes).1 = .ok b := by
  obtain ⟨legs, hlegs⟩ := startingLegs_isOk order h
  rw [rebalance, hlegs]
  cases legs with
  | none => exact ⟨none, rfl⟩
  | some legs => exact ⟨_, rfl⟩

end SwapRouting
