import Mathlib.Algebra.Ring.Int.Defs
import SwapRouting.Proofs.Split.Rebalance

/-! Rebalancing only improves.

A move is made only if the receiver gains more than the donor loses, and halving the step moves nothing. So
the summed worth of the legs never falls from round to round, more rounds never end with less of it, and
the shares are never worth less than the equal ones they start from. -/
namespace SwapRouting
set_option autoImplicit false

/-! ## Worth of all shares -/

/-- The summed worth of shares, if each of them can be quoted. -/
def totalWorth (order : SwapOrder) : List (Route × Nat) → Except SwapError Int
  | [] => .ok 0
  | s :: rest => do
    let worth ← s.1.worth order s.2
    let others ← totalWorth order rest
    .ok (worth + others)

/-- Whether both ways to share an order can be quoted, and the second is worth no less. -/
def WorthNoLess (order : SwapOrder) (shares better : List (Route × Nat)) : Prop :=
  ∃ v w, totalWorth order shares = .ok v ∧ totalWorth order better = .ok w ∧ v ≤ w

namespace Balance

/-- The routes with their shares. -/
def allocation (b : Balance) : List (Route × Nat) := b.legs.map fun l => (l.route, l.share)

/-- The summed worth that the legs keep. -/
def worth (b : Balance) : Int := (b.legs.map (·.worth)).sum

end Balance

theorem totalWorth_legs {order : SwapOrder} {legs : List Leg}
    (h : ∀ l ∈ legs, l.route.worth order l.share = .ok l.worth) :
    totalWorth order (legs.map fun l => (l.route, l.share)) = .ok (legs.map (·.worth)).sum := by
  induction legs with
  | nil => rfl
  | cons l rest ih =>
    have hworth := h l (List.mem_cons_self ..)
    have hrest := ih fun x hx => h x (List.mem_cons_of_mem l hx)
    rw [List.map_cons, List.map_cons, List.sum_cons]
    exact bind_eq_ok_iff.2 ⟨l.worth, hworth, bind_eq_ok_iff.2 ⟨_, hrest, rfl⟩⟩

namespace Balance.Shares

variable {b : Balance} {order : SwapOrder} {routes : List Route}

/-- The worth that the legs keep is the one that quotes for their shares have. -/
theorem totalWorth_eq (h : b.Shares order routes) : totalWorth order b.allocation = .ok b.worth :=
  totalWorth_legs fun l hl => (h.measures l hl).worth

theorem aligned (h : b.Shares order routes) : b.allocation.map (·.1) = routes := by
  rw [allocation, List.map_map]
  exact h.routes

theorem sum_allocation (h : b.Shares order routes) :
    (b.allocation.map (·.2)).sum = order.amount := by
  rw [allocation, List.map_map]
  exact h.total

end Balance.Shares

/-! ## Moves -/

theorem loss_lt_gain_of_move? {epsilon : Nat} {legs : List Leg} {m : Move}
    (h : move? epsilon legs = some m) : m.loss < m.gain := by
  simp only [move?, Option.bind_eq_bind, Option.bind_eq_some_iff] at h
  obtain ⟨⟨r, gain⟩, -, ⟨d, negLoss⟩, -, hif⟩ := h
  simp only at hif
  split at hif
  · next hpays =>
    cases hif
    show -negLoss < gain
    omega
  · cases hif

theorem map_worth_moved (order : SwapOrder) (step : Nat) {m : Move} (hne : m.donor ≠ m.receiver)
    (legs : List Leg) : (moved order step m legs).map (·.worth)
      = ((legs.map (·.worth)).modify m.donor (· + -m.loss)).modify m.receiver (· + m.gain) :=
  map_moved (·.worth) (· + m.gain) (· + -m.loss) hne (fun _ => rfl)
    (fun _ => Int.sub_eq_add_neg) legs

theorem sum_worth_moved (order : SwapOrder) (step : Nat) {m : Move} {legs : List Leg}
    (hm : m.OfferedBy legs) :
    ((moved order step m legs).map (·.worth)).sum
      = (legs.map (·.worth)).sum + (m.gain - m.loss) := by
  obtain ⟨receiver, hreceiver, -⟩ := hm.gain
  obtain ⟨donor, hdonor, -⟩ := hm.loss
  have hr : m.receiver < legs.length := (List.getElem?_eq_some_iff.1 hreceiver).1
  have hd : m.donor < legs.length := (List.getElem?_eq_some_iff.1 hdonor).1
  rw [map_worth_moved order step hm.ne, sum_modify_add (by simpa using hr),
    sum_modify_add (by simpa using hd)]
  omega

/-! ## Rounds -/

namespace Balance

variable {ctx : Context} {order : SwapOrder} {epsilon : Nat}

theorem worth_le_round (b : Balance) : b.worth ≤ (b.round order epsilon).1.worth := by
  rw [round]
  split
  · next m hm =>
    have hpays := loss_lt_gain_of_move? hm
    show (b.legs.map (·.worth)).sum ≤ ((moved order b.step m b.legs).map (·.worth)).sum
    rw [sum_worth_moved order b.step (move?_offered hm)]
    omega
  · split
    · exact Int.le_refl _
    · show (b.legs.map (·.worth)).sum
        ≤ ((b.legs.map (Leg.measured order (b.step / 2))).map (·.worth)).sum
      rw [List.map_map]
      exact Int.le_refl _

theorem worth_le_run (n : Nat) (b : Balance) : b.worth ≤ (b.run ctx order epsilon n).worth :=
  run_invariant (P := fun c => b.worth ≤ c.worth) (fun c h => h.trans c.worth_le_round)
    (Int.le_refl _) n

/-- A longer run goes through the end of a shorter one. -/
theorem run_worth_mono {m n : Nat} (hle : m ≤ n) (b : Balance) :
    (b.run ctx order epsilon m).worth ≤ (b.run ctx order epsilon n).worth := by
  induction m generalizing n b with
  | zero => exact worth_le_run n b
  | succ m ih =>
    obtain ⟨k, rfl⟩ : ∃ k, n = k + 1 := ⟨n - 1, by omega⟩
    rw [run, run]
    split
    · exact Int.le_refl _
    · simp only
      split
      · exact ih (Nat.le_of_succ_le_succ hle) _
      · exact Int.le_refl _

end Balance

/-! ## The start -/

theorem StartingLegs.totalWorth_eq {legs : List Leg} {order : SwapOrder} {routes : List Route}
    (h : StartingLegs legs order routes) (limits : SplitLimits) :
    totalWorth order (withEqualShares order.amount routes)
      = .ok (Balance.opening limits order legs).worth := by
  rw [← h.shares, totalWorth_legs h.worth, Balance.worth, Balance.opening, List.map_map]
  rfl

/-! ## All of it -/

/-- An order shared among routes: all of it, each share can be quoted, and together they are worth no
less than equal shares. -/
structure ImprovedShares (order : SwapOrder) (routes : List Route) (shares : List (Route × Nat)) :
    Prop where
  aligned : shares.map (·.1) = routes
  total : (shares.map (·.2)).sum = order.amount
  quoted : ∀ s ∈ shares, ∃ q, s.1.quoteFor order.method order.denomIn s.2 = .ok q
  improved : WorthNoLess order (withEqualShares order.amount routes) shares

theorem Balance.Shares.improved {b start : Balance} {order : SwapOrder} {routes : List Route}
    (h : b.Shares order routes)
    (hstart : totalWorth order (withEqualShares order.amount routes) = .ok start.worth)
    (hle : start.worth ≤ b.worth) : ImprovedShares order routes b.allocation := by
  refine ⟨h.aligned, h.sum_allocation, ?_, start.worth, b.worth, hstart, h.totalWorth_eq, hle⟩
  intro s hs
  obtain ⟨l, hl, rfl⟩ := List.mem_map.1 hs
  exact quoteFor_of_worth_eq_ok (h.measures l hl).worth

/-- The balance that rebalancing ends with shares the order among the routes that are left, for the better;
with more rounds allowed the routes are the same and the shares are worth no less. -/
theorem rebalance_improves {ctx : Context} {limits : SplitLimits} {order : SwapOrder}
    {routes : List Route} {b : Balance}
    (h : (rebalance ctx limits order routes).1 = .ok (some b)) :
    ∃ kept, Survivors order routes kept ∧ ImprovedShares order kept b.allocation ∧
      ∀ n, limits.maxIterations ≤ n →
        ∃ b', (rebalance ctx { limits with maxIterations := n } order routes).1 = .ok (some b') ∧
          ImprovedShares order kept b'.allocation ∧ WorthNoLess order b.allocation b'.allocation := by
  obtain ⟨legs, hlegs, rfl⟩ := rebalance_eq_some_iff.1 h
  obtain ⟨kept, hkept, hstart⟩ := startingLegs_spec hlegs
  have hpos : 0 < kept.length := Nat.lt_of_lt_of_le (by decide) hkept.two_le
  have hopening := hstart.shares_opening hpos limits
  have hequal := hstart.totalWorth_eq limits
  have hruns : ∀ n, ((Balance.opening limits order legs).run ctx order limits.epsilon n).Shares
      order kept := fun n => Balance.run_shares hopening
  refine ⟨kept, hkept, (hruns _).improved hequal (Balance.worth_le_run _ _), ?_⟩
  intro n hn
  refine ⟨_, rebalance_eq_some_iff.2 ⟨legs, hlegs, rfl⟩, ?_, ?_⟩
  · exact (hruns n).improved hequal (Balance.worth_le_run _ _)
  · exact ⟨_, _, (hruns _).totalWorth_eq, (hruns n).totalWorth_eq, Balance.run_worth_mono hn _⟩

/-- A route through one constant product with these reserves. -/
def oneProductRoute (pool reserveIn reserveOut : Nat) : Route where
  hops := [⟨PoolRecord.constantProduct ⟨pool, .constantProduct, ["in", "out"],
    [⟨"in", reserveIn⟩, ⟨"out", reserveOut⟩], Decimal.zero, 0⟩, "out", Decimal.zero⟩]
  canonicalOrderbook := false

/-- A deep pool and a shallow one: the first round takes 250 from the shallow one. -/
theorem deepAndShallow_improves :
    ∃ b, (rebalance .background ⟨3, 1, 0, 2⟩ ⟨.exactIn, "in", 1000⟩
        [oneProductRoute 1 2000 2000, oneProductRoute 2 500 500]).1 = .ok (some b) ∧
      b.legs.map (·.share) = [750, 250] ∧
      ∃ kept, Survivors ⟨.exactIn, "in", 1000⟩
          [oneProductRoute 1 2000 2000, oneProductRoute 2 500 500] kept ∧
        ImprovedShares ⟨.exactIn, "in", 1000⟩ kept b.allocation := by
  have hshares : (rebalance .background ⟨3, 1, 0, 2⟩ ⟨.exactIn, "in", 1000⟩
      [oneProductRoute 1 2000 2000, oneProductRoute 2 500 500]).1.toOption.join.map
        (fun b => b.legs.map (·.share)) = some [750, 250] := by decide +kernel
  obtain ⟨b, hb, hlegs⟩ := Option.map_eq_some_iff.1 hshares
  have hrun := toOption_eq_some_iff.1 (Option.join_eq_some_iff.1 hb)
  obtain ⟨kept, hkept, himproved, -⟩ := rebalance_improves hrun
  exact ⟨b, hrun, hlegs, kept, hkept, himproved⟩

end SwapRouting
