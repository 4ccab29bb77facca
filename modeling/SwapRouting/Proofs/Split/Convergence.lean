import Mathlib.Algebra.Order.BigOperators.Group.List
import SwapRouting.Proofs.Route.Concave
import SwapRouting.Proofs.Split.Improvement
import SwapRouting.Proofs.Split.Payout

/-! Where rebalancing settles.

A round tries one move only: to the leg that gains most, from the leg that loses least among the others. If
this one does not pay, no other move of a step pays either, except one that takes from the leg that gains
most, and such a move is never tried. It pays only where a route pays more for the next unit than for the last
one, which no curve does by itself and which rounding makes possible. -/
namespace SwapRouting
set_option autoImplicit false

/-! ## No move left -/

section
variable {legs : List Leg} {l : Leg} {i r : Nat}

theorem exists_receiver? {gain : Int} (hl : legs[i]? = some l) (hgain : l.gain = some gain) :
    ∃ c, receiver? legs = some c ∧ gain ≤ c.2 :=
  exists_firstGreatest (x := (i, gain))
    (List.mem_filterMap.2 ⟨(l, i), List.mem_zipIdx_iff_getElem?.2 hl, by simp [hgain]⟩)

theorem exists_donor? {loss : Int} (hl : legs[i]? = some l) (hloss : l.loss = some loss)
    (hne : i ≠ r) : ∃ c, donor? r legs = some c ∧ -loss ≤ c.2 :=
  exists_firstGreatest (x := (i, -loss))
    (List.mem_filterMap.2 ⟨(l, i), List.mem_zipIdx_iff_getElem?.2 hl, by simp [hne, hloss]⟩)

end

/-- How a step that pays can be overlooked: `donor` is the leg `top`, which gains at least `gain`. -/
def Overlooked (legs : List Leg) (top donor : Nat) (gain : Int) : Prop :=
  donor = top ∧ ∃ l best, legs[top]? = some l ∧ l.gain = some best ∧ gain ≤ best

/-- Without a move no step pays, whichever legs it is between, except those that are overlooked. -/
theorem exists_top_of_move?_eq_none {epsilon : Nat} {legs : List Leg} (h : move? epsilon legs = none) :
    ∃ top, ∀ ⦃i j : Nat⦄ ⦃donor receiver : Leg⦄ ⦃gain loss : Int⦄,
      legs[i]? = some donor → donor.loss = some loss →
      legs[j]? = some receiver → receiver.gain = some gain →
        min (gain - loss) worthBound ≤ (min epsilon worthBound : Nat) ∨ Overlooked legs top i gain := by
  cases hreceiver : receiver? legs with
  | none =>
    refine ⟨0, fun i j donor receiver gain loss _ _ hj hgain => ?_⟩
    obtain ⟨c, hc, -⟩ := exists_receiver? hj hgain
    rw [hreceiver] at hc
    cases hc
  | some top =>
    obtain ⟨r, best⟩ := top
    refine ⟨r, fun i j donor receiver gain loss hi hloss hj hgain => ?_⟩
    have hle : gain ≤ best := by
      obtain ⟨c, hc, hle⟩ := exists_receiver? hj hgain
      rw [hreceiver, Option.some.injEq] at hc
      subst hc
      exact hle
    by_cases hir : i = r
    · obtain ⟨l, hl, hlgain⟩ := receiver?_offers hreceiver
      exact Or.inr ⟨hir, l, best, hl, hlgain, hle⟩
    · obtain ⟨⟨d, negLoss⟩, hdonor, hleast⟩ := exists_donor? hi hloss hir
      simp only at hleast
      have hstays : ¬ ((min epsilon worthBound : Nat) : Int) < min (best + negLoss) worthBound := by
        intro hpays
        simp only [move?, hreceiver, hdonor, Option.bind_eq_bind, Option.bind_some, if_pos hpays,
          reduceCtorEq] at h
      refine Or.inl ?_
      omega

/-! ## The last round -/

/-- Whether every leg has the gain and the loss of the current step. -/
def Balance.Measured (b : Balance) (order : SwapOrder) : Prop :=
  ∀ l ∈ b.legs, l.measured order b.step = l

namespace Balance

variable {ctx : Context} {order : SwapOrder} {epsilon : Nat}

theorem round_measured {b : Balance} (h : b.Measured order) :
    (b.round order epsilon).1.Measured order := by
  rw [round]
  split
  · next m _ =>
    intro l hl
    obtain ⟨i, hi⟩ := List.mem_iff_getElem?.1 hl
    rw [getElem?_moved] at hi
    obtain ⟨x, hx, rfl⟩ := Option.map_eq_some_iff.1 hi
    split
    · rfl
    · split
      · rfl
      · exact h x (List.mem_of_getElem? hx)
  · split
    · exact h
    · intro l hl
      obtain ⟨x, -, rfl⟩ := List.mem_map.1 hl
      rfl

theorem run_measured {b : Balance} (h : b.Measured order) (n : Nat) :
    (b.run ctx order epsilon n).Measured order :=
  run_invariant (P := fun b => b.Measured order) (fun _ => round_measured) h n

theorem opening_measured (limits : SplitLimits) (order : SwapOrder) (legs : List Leg) :
    (opening limits order legs).Measured order := by
  intro l hl
  obtain ⟨x, -, rfl⟩ := List.mem_map.1 hl
  rfl

theorem round_rounds (b : Balance) : (b.round order epsilon).1.rounds = b.rounds + 1 := by
  rw [round]
  split
  · rfl
  · split <;> rfl

/-- The rounds end by themselves only with a step of one that does not pay, and then keep the legs. -/
theorem round_stops {b : Balance} (h : (b.round order epsilon).2 = false) :
    move? epsilon (b.round order epsilon).1.legs = none ∧ (b.round order epsilon).1.step = 1 := by
  rw [round] at h ⊢
  split at h
  · cases h
  · next hmove =>
    split at h
    · next hstep =>
      rw [if_pos hstep]
      exact ⟨hmove, hstep⟩
    · cases h

/-- Rounds that are neither used up nor cut short end without a move of a single unit. -/
theorem run_stops {n : Nat} {b : Balance} (hrounds : (b.run ctx order epsilon n).rounds < b.rounds + n)
    (hctx : ctx.isDone .rebalancing (b.run ctx order epsilon n).rounds = false) :
    move? epsilon (b.run ctx order epsilon n).legs = none ∧ (b.run ctx order epsilon n).step = 1 := by
  induction n generalizing b with
  | zero => exact absurd hrounds (Nat.lt_irrefl _)
  | succ n ih =>
    rw [run] at hrounds hctx ⊢
    by_cases hdone : ctx.isDone .rebalancing b.rounds = true
    · rw [if_pos hdone] at hctx
      rw [hctx] at hdone
      cases hdone
    · rw [if_neg hdone] at hrounds hctx ⊢
      by_cases hmore : (b.round order epsilon).2 = true
      · simp only [hmore, if_true] at hrounds hctx ⊢
        exact ih (by rw [round_rounds]; omega) hctx
      · simp only [hmore, Bool.false_eq_true, if_false]
        exact round_stops (by simpa using hmore)

end Balance

/-! ## Worth of a fixed input -/

theorem worth_eq_ok_iff {r : Route} {order : SwapOrder} (hexact : order.method = .exactIn) {share : Nat}
    {w : Int} : r.worth order share = .ok w ↔
      ∃ out, r.amountOut order.denomIn share = .ok out ∧ w = (min out worthBound : Nat) := by
  rw [Route.worth, hexact, Route.quoteFor]
  cases r.amountOut order.denomIn share with
  | error e => simp [Except.map, bind, Except.bind]
  | ok out => simp [Except.map, bind, Except.bind, QuotedRoute.worth, eq_comm]

/-! ## Single units -/

namespace Leg

variable {l : Leg} {order : SwapOrder} {here : Nat}

theorem worth_eq (hmeasures : l.Measures order 1) (hexact : order.method = .exactIn)
    (hhere : l.route.amountOut order.denomIn l.share = .ok here) :
    l.worth = (min here worthBound : Nat) := by
  obtain ⟨out, hout, hworth⟩ := (worth_eq_ok_iff hexact).1 hmeasures.worth
  rw [hhere, Except.ok.injEq] at hout
  rw [hworth, hout]

/-- A leg never loses more by one unit less than its route pays for it. -/
theorem loss_of_amountOut (hmeasures : l.Measures order 1) (hmeasured : l.measured order 1 = l)
    (hexact : order.method = .exactIn) {less : Nat} (hpos : 0 < l.share)
    (hhere : l.route.amountOut order.denomIn l.share = .ok here)
    (hless : l.route.amountOut order.denomIn (l.share - 1) = .ok less) :
    ∃ loss, l.loss = some loss ∧ 0 ≤ loss ∧ loss ≤ here - less := by
  have hle : less ≤ here := l.route.grows_amountOut order.denomIn (Nat.sub_le ..) hless hhere
  have hworth := worth_eq hmeasures hexact hhere
  have hnext := (worth_eq_ok_iff hexact).2 ⟨less, hless, rfl⟩
  have hloss : l.loss = some (l.worth - (min less worthBound : Nat)) := by
    rw [← hmeasured]
    simp only [measured, if_pos (Nat.succ_le_of_lt hpos), hnext, Except.toOption, Option.map_some]
  exact ⟨_, hloss, by omega, by omega⟩

/-- A leg gains by one unit more what its route pays for it, up to the largest worth. -/
theorem gain_of_amountOut (hmeasures : l.Measures order 1) (hmeasured : l.measured order 1 = l)
    (hexact : order.method = .exactIn) {more : Nat} (hfits : l.share + 1 ≤ order.amount)
    (hhere : l.route.amountOut order.denomIn l.share = .ok here)
    (hmore : l.route.amountOut order.denomIn (l.share + 1) = .ok more) (hbound : more ≤ worthBound) :
    l.gain = some ((more : Int) - here) := by
  have hle : here ≤ more := l.route.grows_amountOut order.denomIn (Nat.le_succ _) hhere hmore
  have hworth := worth_eq hmeasures hexact hhere
  have hnext := (worth_eq_ok_iff hexact).2 ⟨more, hmore, rfl⟩
  have hgain : l.gain = some ((min more worthBound : Nat) - l.worth) := by
    rw [← hmeasured]
    simp only [measured, if_pos hfits, hnext, Except.toOption, Option.map_some]
  rw [hgain, hworth, Nat.min_eq_left hbound, Nat.min_eq_left (hle.trans hbound)]

/-- A leg never gains more by one unit more than its route pays for it. -/
theorem amountOut_of_gain (hmeasures : l.Measures order 1) (hexact : order.method = .exactIn)
    {gain : Int} (hhere : l.route.amountOut order.denomIn l.share = .ok here)
    (hgain : l.gain = some gain) :
    ∃ more : Nat, l.route.amountOut order.denomIn (l.share + 1) = .ok more ∧ gain ≤ more - here := by
  obtain ⟨more, hmore, hnext⟩ := (worth_eq_ok_iff hexact).1 (hmeasures.gain gain hgain)
  have hle : here ≤ more := l.route.grows_amountOut order.denomIn (Nat.le_succ _) hhere hmore
  have hworth := worth_eq hmeasures hexact hhere
  exact ⟨more, hmore, by omega⟩

end Leg

/-! ## All of it -/

/-- Shares among which no unit that goes from one to another raises the payout by more than `epsilon`,
except from one of them, and there by no more than the excess of its route. A receiver is not to pay more
than the largest worth. -/
structure Settled (denomIn : Denom) (epsilon : Nat) (shares : List (Route × Nat)) : Prop where
  quoted : ∃ n, payout denomIn shares = .ok n
  exchange : ∃ top, ∀ ⦃donor receiver before after : Nat⦄,
    Transfer denomIn shares donor receiver before after →
    (∀ s out, shares[receiver]? = some s → s.1.amountOut denomIn (s.2 + 1) = .ok out →
      out ≤ worthBound) →
    after ≤ before + epsilon ∨ donor = top ∧
      ∃ s excess, shares[top]? = some s ∧ s.1.Excess denomIn s.2 excess ∧
        (after : Int) ≤ before + excess

theorem add_le_sum {l : List Nat} {i j a b : Nat} (hne : i ≠ j) (ha : l[i]? = some a)
    (hb : l[j]? = some b) : a + b ≤ l.sum := by
  have hrest := sum_modify_sub ha (Nat.le_refl a)
  have hmem : b ∈ l.modify i (· - a) :=
    List.mem_of_getElem? (i := j) (by simp [hne, hb])
  have hle := List.le_sum_of_mem hmem
  omega

namespace Balance

variable {b : Balance} {order : SwapOrder} {routes : List Route} {epsilon : Nat}

theorem getElem?_allocation {i : Nat} {s : Route × Nat} (h : b.allocation[i]? = some s) :
    ∃ l, b.legs[i]? = some l ∧ s = (l.route, l.share) := by
  rw [allocation, List.getElem?_map] at h
  obtain ⟨l, hl, rfl⟩ := Option.map_eq_some_iff.1 h
  exact ⟨l, hl, rfl⟩

/-- Two shares leave room for one unit more in either of them, if the other one has a unit to give. -/
theorem Shares.succ_le (h : b.Shares order routes) {i j : Nat} {donor receiver : Leg} (hne : i ≠ j)
    (hi : b.legs[i]? = some donor) (hj : b.legs[j]? = some receiver) (hpos : 0 < donor.share) :
    receiver.share + 1 ≤ order.amount := by
  have hsum : donor.share + receiver.share ≤ (b.legs.map (·.share)).sum :=
    add_le_sum hne (by rw [List.getElem?_map, hi]; rfl) (by rw [List.getElem?_map, hj]; rfl)
  rw [h.total] at hsum
  omega

/-- Legs with a step of one and without a move are settled. -/
theorem Shares.settled (h : b.Shares order routes) (hexact : order.method = .exactIn)
    (hmeasured : b.Measured order) (hmove : move? epsilon b.legs = none) (hstep : b.step = 1) :
    Settled order.denomIn epsilon b.allocation := by
  rw [Measured, hstep] at hmeasured
  have hmeasures : ∀ l ∈ b.legs, l.Measures order 1 := hstep ▸ h.measures
  constructor
  · refine payout_isOk fun s hs => ?_
    obtain ⟨l, hl, rfl⟩ := List.mem_map.1 hs
    obtain ⟨out, hout, -⟩ := (worth_eq_ok_iff hexact).1 (hmeasures l hl).worth
    exact ⟨out, hout⟩
  obtain ⟨top, htop⟩ := exists_top_of_move?_eq_none hmove
  refine ⟨top, fun i j before after t hbound => ?_⟩
  obtain ⟨donorShare, hdonorShare, hpos⟩ := t.gives
  have hreceiverShare := List.getElem?_eq_getElem t.takes
  obtain ⟨donor, hi, rfl⟩ := getElem?_allocation hdonorShare
  obtain ⟨receiver, hj, hpair⟩ := getElem?_allocation hreceiverShare
  rw [hpair] at hreceiverShare
  have hdonor := List.mem_of_getElem? hi
  have hreceiver := List.mem_of_getElem? hj
  obtain ⟨d, d', r, r', hpays⟩ := t.pays hdonorShare hreceiverShare
  obtain ⟨loss, hloss, hnonneg, hless⟩ := Leg.loss_of_amountOut (hmeasures donor hdonor)
    (hmeasured donor hdonor) hexact hpos hpays.donorBefore hpays.donorAfter
  have hr' : r' ≤ worthBound := hbound _ r' hreceiverShare hpays.receiverAfter
  have hgain := Leg.gain_of_amountOut (hmeasures receiver hreceiver) (hmeasured receiver hreceiver)
    hexact (h.succ_le t.ne hi hj hpos) hpays.receiverBefore hpays.receiverAfter hr'
  have hsum := hpays.sum
  rcases htop hi hloss hj hgain with hleft | ⟨rfl, l, best, hl, hbest, hle⟩
  · left
    omega
  · right
    rw [hi, Option.some.injEq] at hl
    subst hl
    obtain ⟨more, hmore, hgained⟩ := Leg.amountOut_of_gain (hmeasures donor hdonor) hexact
      hpays.donorBefore hbest
    refine ⟨rfl, _, _, hdonorShare,
      ⟨d', d, more, hpos, hpays.donorAfter, hpays.donorBefore, hmore, rfl⟩, ?_⟩
    omega

end Balance

/-- Where the next unit pays no more than the last one, within `epsilon`, settled shares are a local
optimum. -/
theorem Settled.localOptimum {denomIn : Denom} {epsilon : Nat} {shares : List (Route × Nat)}
    (h : Settled denomIn epsilon shares)
    (hbound : ∀ s ∈ shares, ∀ out, s.1.amountOut denomIn (s.2 + 1) = .ok out → out ≤ worthBound)
    (hexcess : ∀ s ∈ shares, ∀ excess, s.1.Excess denomIn s.2 excess → excess ≤ epsilon) :
    LocalOptimum denomIn epsilon shares := by
  intro i j before after t
  obtain ⟨top, htop⟩ := h.exchange
  have hfits := fun s out (hs : shares[j]? = some s) => hbound s (List.mem_of_getElem? hs) out
  rcases htop t hfits with hle | ⟨-, s, excess, hs, hes, hle⟩
  · exact hle
  · have hsmall := hexcess s (List.mem_of_getElem? hs) excess hes
    omega

section
variable {ctx : Context} {limits : SplitLimits} {order : SwapOrder} {routes : List Route} {b : Balance}

/-- What rebalancing leaves that ends before its rounds are used up. -/
theorem rebalance_ends (h : (rebalance ctx limits order routes).1 = .ok (some b))
    (hrounds : b.rounds < limits.maxIterations) (hctx : ctx.isDone .rebalancing b.rounds = false) :
    ∃ kept, Survivors order routes kept ∧ b.Shares order kept ∧ b.Measured order ∧
      move? limits.epsilon b.legs = none ∧ b.step = 1 := by
  obtain ⟨legs, hlegs, rfl⟩ := rebalance_eq_some_iff.1 h
  obtain ⟨kept, hkept, hstart⟩ := startingLegs_spec hlegs
  have hpos : 0 < kept.length := Nat.lt_of_lt_of_le (by decide) hkept.two_le
  have hend := Balance.run_stops (by simpa [Balance.opening] using hrounds) hctx
  exact ⟨kept, hkept, Balance.run_shares (hstart.shares_opening hpos limits),
    Balance.run_measured (Balance.opening_measured limits order legs) _, hend⟩

/-- Rebalancing that ends before its rounds are used up leaves settled shares of the whole order among the
routes that are left. -/
theorem rebalance_settled (hexact : order.method = .exactIn)
    (h : (rebalance ctx limits order routes).1 = .ok (some b))
    (hrounds : b.rounds < limits.maxIterations) (hctx : ctx.isDone .rebalancing b.rounds = false) :
    Survivors order routes (b.allocation.map (·.1)) ∧ (b.allocation.map (·.2)).sum = order.amount ∧
      Settled order.denomIn limits.epsilon b.allocation := by
  obtain ⟨kept, hkept, hshares, hmeasured, hmove, hstep⟩ := rebalance_ends h hrounds hctx
  refine ⟨?_, ?_, hshares.settled hexact hmeasured hmove hstep⟩
  · rw [hshares.aligned]
    exact hkept
  · exact hshares.sum_allocation

/-- Through pools without fees, and with a tolerance for the unit that rounding moves, they are a local
optimum. -/
theorem rebalance_localOptimum (hexact : order.method = .exactIn)
    (h : (rebalance ctx limits order routes).1 = .ok (some b))
    (hrounds : b.rounds < limits.maxIterations) (hctx : ctx.isDone .rebalancing b.rounds = false)
    (hplain : ∀ r ∈ routes, r.IsPlain) (hepsilon : 0 < limits.epsilon)
    (hamount : order.amount < worthBound) :
    LocalOptimum order.denomIn limits.epsilon b.allocation := by
  obtain ⟨kept, hkept, hshares, hmeasured, hmove, hstep⟩ := rebalance_ends h hrounds hctx
  have hroutes : ∀ s ∈ b.allocation, s.1.IsPlain := fun s hs => hplain s.1
    (hkept.sublist.subset (hshares.aligned ▸ List.mem_map_of_mem hs))
  refine (hshares.settled hexact hmeasured hmove hstep).localOptimum ?_ ?_
  · intro s hs out hout
    have hshare : s.2 ≤ (b.allocation.map (·.2)).sum := List.le_sum_of_mem (List.mem_map_of_mem hs)
    rw [hshares.sum_allocation] at hshare
    have hhalf : Amount.bound = 2 * worthBound + 2 := rfl
    have hpays := ((hroutes s hs).paysPlainly _).two_mul_lt_or_le (Nat.succ_pos _) hout
    omega
  · intro s hs excess hexcess
    have hle := (hroutes s hs).excess_le_one hexcess
    omega

end

/-- A route through two constant products without fees, the second one with a high price. -/
def steepTwoPoolRoute (pool reserveIn : Nat) : Route where
  hops := [
    ⟨PoolRecord.constantProduct ⟨pool, .constantProduct, ["in", "mid"],
      [⟨"in", reserveIn⟩, ⟨"mid", 200⟩], Decimal.zero, 0⟩, "mid", Decimal.zero⟩,
    ⟨PoolRecord.constantProduct ⟨pool + 1, .constantProduct, ["mid", "out"],
      [⟨"mid", 200⟩, ⟨"out", 100000⟩], Decimal.zero, 0⟩, "out", Decimal.zero⟩]
  canonicalOrderbook := false

/-- Two such routes share 40: after four rounds no move is left. -/
theorem steepTwoPoolRoutes_rebalance :
    ∃ b, (rebalance .background ⟨3, 64, 0, 4⟩ ⟨.exactIn, "in", 40⟩
        [steepTwoPoolRoute 1 100, steepTwoPoolRoute 3 200]).1 = .ok (some b) ∧
      b.rounds = 4 ∧ b.allocation = [(steepTwoPoolRoute 1 100, 25), (steepTwoPoolRoute 3 200, 15)] := by
  have hrun : (rebalance .background ⟨3, 64, 0, 4⟩ ⟨.exactIn, "in", 40⟩
      [steepTwoPoolRoute 1 100, steepTwoPoolRoute 3 200]).1.toOption.join.map
        (fun b => (b.rounds, b.allocation))
      = some (4, [(steepTwoPoolRoute 1 100, 25), (steepTwoPoolRoute 3 200, 15)]) := by decide +kernel
  obtain ⟨b, hb, hend⟩ := Option.map_eq_some_iff.1 hrun
  rw [Prod.mk.injEq] at hend
  exact ⟨b, toOption_eq_some_iff.1 (Option.join_eq_some_iff.1 hb), hend⟩

theorem steepTwoPoolRoutes_settled :
    ∃ b, (rebalance .background ⟨3, 64, 0, 4⟩ ⟨.exactIn, "in", 40⟩
        [steepTwoPoolRoute 1 100, steepTwoPoolRoute 3 200]).1 = .ok (some b) ∧
      b.rounds < 64 ∧ b.allocation.map (·.2) = [25, 15] ∧
      Survivors ⟨.exactIn, "in", 40⟩ [steepTwoPoolRoute 1 100, steepTwoPoolRoute 3 200]
        (b.allocation.map (·.1)) ∧
      Settled "in" 0 b.allocation := by
  obtain ⟨b, hrun, hrounds, hshares⟩ := steepTwoPoolRoutes_rebalance
  have hlt : b.rounds < 64 := by omega
  obtain ⟨hsurvivors, -, hsettled⟩ := rebalance_settled rfl hrun hlt rfl
  exact ⟨b, hrun, hlt, by rw [hshares]; rfl, hsurvivors, hsettled⟩

/-- The second route pays 439 for one unit more and loses nothing by one unit less, so it is the receiver and
its unit is not offered to the first route, which would pay 346 for it. -/
theorem steepTwoPoolRoutes_notOptimal :
    ∃ b, (rebalance .background ⟨3, 64, 0, 4⟩ ⟨.exactIn, "in", 40⟩
        [steepTwoPoolRoute 1 100, steepTwoPoolRoute 3 200]).1 = .ok (some b) ∧
      b.rounds < 64 ∧ ¬ LocalOptimum "in" 0 b.allocation := by
  obtain ⟨b, hrun, hrounds, hshares⟩ := steepTwoPoolRoutes_rebalance
  refine ⟨b, hrun, by omega, ?_⟩
  rw [hshares]
  intro hoptimal
  have htransfer : Transfer "in" [(steepTwoPoolRoute 1 100, 25), (steepTwoPoolRoute 3 200, 15)]
      1 0 22769 23115 :=
    ⟨by decide, ⟨_, rfl, by decide⟩, by decide, by decide +kernel, by decide +kernel⟩
  have hle := hoptimal htransfer
  omega

end SwapRouting
