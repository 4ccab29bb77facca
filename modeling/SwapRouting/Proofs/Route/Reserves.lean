import Mathlib.Tactic.Ring
import SwapRouting.Proofs.Route.Fees

/-! No trade beats the reserves it is made against.

A constant product never pays its output reserve out and never lets the product of its reserves fall, and a
transmuter pays no more than its balance. Every rounding is against the trade, so in the end a route pays no
more for its input than the product of the rates of its pools before the trade. -/
namespace SwapRouting
set_option autoImplicit false

/-- How much of a denom is held; zero if it is not listed. -/
def heldOf (coins : List Coin) (denom : Denom) : Nat :=
  ((coins.find? fun c => c.denom == denom).map (·.amount)).getD 0

theorem heldOf_of_balanceOf {pool n : Nat} {coins : List Coin} {denom : Denom}
    (h : balanceOf pool coins denom = .ok n) : heldOf coins denom = n := by
  rw [heldOf, orError_eq_ok_iff.1 h, Option.getD_some]

namespace Curve

/-! ## One pool -/

/-- What a constant product keeps in a trade: some of its output reserve, and the product of its reserves as
far as the input reaches it, which is what fee and spread leave of it. -/
structure KeepsProduct (pool : Nat) (reserves : List Coin) (spread : Decimal) (tokenIn : Coin)
    (denomOut : Denom) (out : Nat) : Prop where
  positive : 0 < heldOf reserves tokenIn.denom
  below : out < heldOf reserves denomOut
  product : ∃ net ≤ tokenIn.amount, retain pool tokenIn.amount spread = .ok net ∧
    heldOf reserves tokenIn.denom * heldOf reserves denomOut
      ≤ (heldOf reserves tokenIn.denom + net) * (heldOf reserves denomOut - out)

/-- What a curve keeps when it pays `out` for the input left after the taker fee. -/
def Keeps (c : Curve) (tokenIn : Coin) (denomOut : Denom) (out : Nat) : Prop :=
  match c with
  | constantProduct pool reserves spread => KeepsProduct pool reserves spread tokenIn denomOut out
  | transmuter _ balances => out ≤ heldOf balances denomOut
  | unpriced pool reserves spread => KeepsProduct pool reserves spread tokenIn denomOut out

/-- What goes in and what comes out at the price before a trade: the reserves of the two denoms, or one for
one. -/
def rate (c : Curve) (denomIn denomOut : Denom) : Nat × Nat :=
  match c with
  | constantProduct _ reserves _ => (heldOf reserves denomIn, heldOf reserves denomOut)
  | transmuter _ _ => (1, 1)
  | unpriced _ reserves _ => (heldOf reserves denomIn, heldOf reserves denomOut)

theorem productShare_lt {reserveIn reserveOut : Nat} (amount : Nat) (hin : 0 < reserveIn)
    (hout : 0 < reserveOut) : reserveOut * amount / (reserveIn + amount) < reserveOut := by
  refine Nat.div_lt_of_lt_mul ?_
  rw [Nat.mul_comm (reserveIn + amount)]
  exact Nat.mul_lt_mul_of_pos_left (by omega) hout

/-- What a constant product pays, rounded down, takes no more from its product than the input adds. -/
theorem product_le {reserveIn reserveOut amount : Nat} :
    reserveIn * reserveOut
      ≤ (reserveIn + amount) * (reserveOut - reserveOut * amount / (reserveIn + amount)) := by
  have hpaid := Nat.mul_div_le (reserveOut * amount) (reserveIn + amount)
  rw [Nat.mul_sub]
  refine Nat.le_sub_of_add_le ?_
  calc reserveIn * reserveOut + (reserveIn + amount) * (reserveOut * amount / (reserveIn + amount))
      ≤ reserveIn * reserveOut + reserveOut * amount := Nat.add_le_add_left hpaid _
    _ = (reserveIn + amount) * reserveOut := by ring

/-- A constant product pays at most its price before the trade. -/
theorem productShare_mul_le {reserveIn reserveOut amount : Nat} :
    reserveOut * amount / (reserveIn + amount) * reserveIn ≤ amount * reserveOut := by
  have hpaid := Nat.div_mul_le_self (reserveOut * amount) (reserveIn + amount)
  calc reserveOut * amount / (reserveIn + amount) * reserveIn
      ≤ reserveOut * amount / (reserveIn + amount) * (reserveIn + amount) :=
        Nat.mul_le_mul_left _ (Nat.le_add_right ..)
    _ ≤ reserveOut * amount := hpaid
    _ = amount * reserveOut := Nat.mul_comm ..

theorem keepsProduct_of_productSwap {pool n : Nat} {reserves : List Coin} {spread : Decimal}
    {tokenIn : Coin} {denomOut : Denom} (hspread : spread.InUnit)
    (h : productSwap pool reserves spread tokenIn denomOut = .ok n) :
    KeepsProduct pool reserves spread tokenIn denomOut n ∧
      n * heldOf reserves tokenIn.denom ≤ tokenIn.amount * heldOf reserves denomOut := by
  obtain ⟨reserveIn, reserveOut, ⟨hpos, hpos'⟩, hin, hout, h⟩ := productSwap_eq_ok h
  obtain ⟨net, hnet, h⟩ := bind_eq_ok_iff.1 h
  have hle := retain_le hspread hnet
  rw [(productOut_eq_ok_iff.1 h).2.2, ← heldOf_of_balanceOf hin, ← heldOf_of_balanceOf hout]
  rw [← heldOf_of_balanceOf hin] at hpos
  rw [← heldOf_of_balanceOf hout] at hpos'
  refine ⟨⟨hpos, productShare_lt net hpos hpos', net, hle, hnet, product_le⟩, ?_⟩
  exact productShare_mul_le.trans (Nat.mul_le_mul_right _ hle)

theorem keeps_of_swap {c : Curve} {tokenIn : Coin} {denomOut : Denom} {n : Nat}
    (hspread : c.SpreadIs Decimal.InUnit) (h : c.swap tokenIn denomOut = .ok n) :
    c.Keeps tokenIn denomOut n ∧ n * (c.rate tokenIn.denom denomOut).1
      ≤ tokenIn.amount * (c.rate tokenIn.denom denomOut).2 := by
  cases c with
  | constantProduct pool reserves spread => exact keepsProduct_of_productSwap hspread h
  | transmuter pool balances =>
    have hone := eq_of_transmute_eq_ok h
    obtain ⟨_, -, h⟩ := bind_eq_ok_iff.1 h
    obtain ⟨available, havailable, h⟩ := bind_eq_ok_iff.1 h
    split at h
    · cases h
    · refine ⟨?_, by rw [hone]; exact Nat.le_refl _⟩
      rw [Keeps, heldOf_of_balanceOf havailable]
      omega
  | unpriced pool reserves spread => exact keepsProduct_of_productSwap hspread h

end Curve

/-! ## Routes -/

/-- Whether no fee adds to an input and every pool keeps what it has to keep, hop after hop. -/
def KeepsThrough (denomIn : Denom) (amount : Nat) : List RouteHop → Prop
  | [] => True
  | h :: rest => ∃ f, h.fill denomIn amount = .ok f ∧ f.charged ≤ amount ∧
      h.pool.curve.Keeps ⟨denomIn, f.charged⟩ h.denomOut f.amountOut ∧
      KeepsThrough h.denomOut f.amountOut rest

/-- The product of the rates of all hops. -/
def rateThrough (denomIn : Denom) : List RouteHop → Nat × Nat
  | [] => (1, 1)
  | h :: rest =>
    let first := h.pool.curve.rate denomIn h.denomOut
    let others := rateThrough h.denomOut rest
    (first.1 * others.1, first.2 * others.2)

theorem keepsThrough_of_tradeThrough {hops : List RouteHop} {denomIn : Denom} {amount out : Nat}
    (hfees : ∀ h ∈ hops, h.FeesAre Decimal.InUnit) (h : tradeThrough denomIn amount hops = .ok out) :
    KeepsThrough denomIn amount hops ∧
      out * (rateThrough denomIn hops).1 ≤ amount * (rateThrough denomIn hops).2 := by
  induction hops generalizing denomIn amount with
  | nil =>
    cases h
    exact ⟨trivial, Nat.le_refl _⟩
  | cons hop rest ih =>
    obtain ⟨f, hfill, hrest⟩ := bind_eq_ok_iff.1 h
    obtain ⟨htaker, hspread⟩ := hfees hop (List.mem_cons_self ..)
    obtain ⟨hkeeps, hrate⟩ := ih (fun x hx => hfees x (List.mem_cons_of_mem _ hx)) hrest
    have hfilled := hfill
    obtain ⟨charged, hcharged, hfilled⟩ := bind_eq_ok_iff.1 hfilled
    obtain ⟨paid, hpaid, hfilled⟩ := bind_eq_ok_iff.1 hfilled
    cases hfilled
    have hle := retain_le htaker hcharged
    obtain ⟨hcurve, hfirst⟩ := Curve.keeps_of_swap hspread hpaid
    refine ⟨⟨_, hfill, hle, hcurve, hkeeps⟩, ?_⟩
    -- the rate of the rest bounds the output by what the first hop pays, its own rate that by the input
    calc out * (rateThrough denomIn (hop :: rest)).1
        = out * (rateThrough hop.denomOut rest).1 * (hop.pool.curve.rate denomIn hop.denomOut).1 := by
          rw [rateThrough, Nat.mul_assoc, Nat.mul_comm (rateThrough hop.denomOut rest).1]
      _ ≤ paid * (rateThrough hop.denomOut rest).2 * (hop.pool.curve.rate denomIn hop.denomOut).1 :=
          Nat.mul_le_mul_right _ hrate
      _ = paid * (hop.pool.curve.rate denomIn hop.denomOut).1 * (rateThrough hop.denomOut rest).2 :=
          Nat.mul_right_comm ..
      _ ≤ amount * (hop.pool.curve.rate denomIn hop.denomOut).2 * (rateThrough hop.denomOut rest).2 :=
          Nat.mul_le_mul_right _ (hfirst.trans (Nat.mul_le_mul_right _ hle))
      _ = amount * (rateThrough denomIn (hop :: rest)).2 := by rw [rateThrough, Nat.mul_assoc]

namespace Route

/-- A trade that leaves every pool what it has to keep and pays no more than the prices before it. -/
structure WithinReserves (r : Route) (tokenIn coin : Coin) : Prop where
  keeps : KeepsThrough tokenIn.denom tokenIn.amount r.hops
  rate : coin.amount * (rateThrough tokenIn.denom r.hops).1
    ≤ tokenIn.amount * (rateThrough tokenIn.denom r.hops).2

theorem withinReserves_of_tokenOut {r : Route} {tokenIn coin : Coin}
    (hfees : r.FeesAre Decimal.InUnit) (h : r.tokenOut tokenIn = .ok coin) :
    r.WithinReserves tokenIn coin := by
  obtain ⟨hkeeps, hrate⟩ := keepsThrough_of_tradeThrough hfees (tokenOut_eq_ok_iff.1 h).1
  exact ⟨hkeeps, hrate⟩

theorem feeRoute_withinReserves : feeRoute.FeesAre Decimal.InUnit ∧
    feeRoute.tokenOut ⟨"a", 200⟩ = .ok ⟨"c", 164⟩ ∧
    feeRoute.WithinReserves ⟨"a", 200⟩ ⟨"c", 164⟩ := by
  have hpaid : feeRoute.tokenOut ⟨"a", 200⟩ = .ok ⟨"c", 164⟩ := by decide +kernel
  exact ⟨feesAre_feeRoute, hpaid, withinReserves_of_tokenOut feesAre_feeRoute hpaid⟩

end Route

end SwapRouting
