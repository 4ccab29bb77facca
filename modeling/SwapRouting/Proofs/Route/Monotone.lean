import SwapRouting.Proofs.Amount
import SwapRouting.Proofs.Outcome
import SwapRouting.Route.Trade

/-! A larger input never buys less.

A fee leaves more of a larger input, a curve pays more for it, and so does a chain of both, wherever two
inputs can be traded at all. Inputs that cannot be traded may lie between two that can, so all of this is
about values that are there. Nothing is paid for nothing. -/
namespace SwapRouting
set_option autoImplicit false

/-- Whether values never fall, where there are values. -/
def Grows {ε : Type} (f : Nat → Except ε Nat) : Prop :=
  ∀ ⦃a b m n : Nat⦄, a ≤ b → f a = .ok m → f b = .ok n → m ≤ n

/-- Whether zero gives nothing but zero. -/
def KeepsZero {ε : Type} (f : Nat → Except ε Nat) : Prop := ∀ ⦃n : Nat⦄, f 0 = .ok n → n = 0

section
variable {ε : Type} {f g : Nat → Except ε Nat}

theorem Grows.ok : Grows fun n => (.ok n : Except ε Nat) := by
  intro a b m n hle ha hb
  cases ha
  cases hb
  exact hle

theorem Grows.bind (hf : Grows f) (hg : Grows g) : Grows fun n => f n >>= g := by
  intro a b m n hle ha hb
  obtain ⟨x, hx, hm⟩ := bind_eq_ok_iff.1 ha
  obtain ⟨y, hy, hn⟩ := bind_eq_ok_iff.1 hb
  exact hg (hf hle hx hy) hm hn

theorem KeepsZero.ok : KeepsZero fun n => (.ok n : Except ε Nat) := by
  intro n h
  cases h
  rfl

theorem KeepsZero.bind (hf : KeepsZero f) (hg : KeepsZero g) : KeepsZero fun n => f n >>= g := by
  intro n h
  obtain ⟨x, hx, hn⟩ := bind_eq_ok_iff.1 h
  rw [hf hx] at hn
  exact hg hn

end

/-! ## Fees -/

theorem mulFloor_of_retain_eq_ok {pool amount n : Nat} {fee : Decimal}
    (h : retain pool amount fee = .ok n) :
    ∃ share, Decimal.one.sub? fee = some share ∧ Amount.mulFloor amount share = some n := by
  obtain ⟨share, hshare, hn⟩ := bind_eq_ok_iff.1 h
  exact ⟨share, orError_eq_ok_iff.1 hshare, orError_eq_ok_iff.1 hn⟩

theorem grows_retain (pool : Nat) (fee : Decimal) : Grows fun amount => retain pool amount fee := by
  intro a b m n hle ha hb
  obtain ⟨share, hshare, hm⟩ := mulFloor_of_retain_eq_ok ha
  obtain ⟨share', hshare', hn⟩ := mulFloor_of_retain_eq_ok hb
  rw [hshare, Option.some.injEq] at hshare'
  subst hshare'
  exact Amount.mulFloor_le_mulFloor hle hm hn

theorem keepsZero_retain (pool : Nat) (fee : Decimal) :
    KeepsZero fun amount => retain pool amount fee := by
  intro n h
  obtain ⟨share, -, hn⟩ := mulFloor_of_retain_eq_ok h
  exact Amount.eq_zero_of_mulFloor_zero hn

/-! ## Curves -/

namespace Curve

theorem productOut_eq_ok_iff {pool reserveIn reserveOut amount n : Nat} :
    productOut pool reserveIn reserveOut amount = .ok n ↔ reserveOut * amount < Amount.bound ∧
      reserveIn + amount < Amount.bound ∧ n = reserveOut * amount / (reserveIn + amount) := by
  simp only [productOut, bind_eq_ok_iff, orError_eq_ok_iff, Amount.checked_eq_some_iff]
  constructor
  · rintro ⟨_, ⟨rfl, hnumerator⟩, _, ⟨rfl, hdenominator⟩, h⟩
    cases h
    exact ⟨hnumerator, hdenominator, rfl⟩
  · rintro ⟨hnumerator, hdenominator, rfl⟩
    exact ⟨_, ⟨rfl, hnumerator⟩, _, ⟨rfl, hdenominator⟩, rfl⟩

/-- What a constant product pays, rounded down, grows with its input. -/
theorem productShare_le {reserveIn reserveOut a b : Nat} (hle : a ≤ b) :
    reserveOut * a / (reserveIn + a) ≤ reserveOut * b / (reserveIn + b) := by
  rcases Nat.eq_zero_or_pos (reserveIn + b) with hzero | hpos
  · have ha : a = 0 := by omega
    rw [ha, Nat.mul_zero, Nat.zero_div]
    exact Nat.zero_le _
  · rw [Nat.le_div_iff_mul_le hpos]
    generalize hpaid : reserveOut * a / (reserveIn + a) = paid
    have hexact : paid * (reserveIn + a) ≤ reserveOut * a := hpaid ▸ Nat.div_mul_le_self _ _
    have hreserve : paid ≤ reserveOut := by
      rw [← hpaid]
      exact Nat.div_le_of_le_mul (by rw [Nat.mul_comm]; exact Nat.mul_le_mul_right _ (by omega))
    -- each unit above `a` adds `paid` on the left and at least as much on the right
    calc paid * (reserveIn + b)
        = paid * (reserveIn + a) + paid * (b - a) := by rw [← Nat.mul_add]; congr 1; omega
      _ ≤ reserveOut * a + reserveOut * (b - a) :=
        Nat.add_le_add hexact (Nat.mul_le_mul_right _ hreserve)
      _ = reserveOut * b := by rw [← Nat.mul_add]; congr 1; omega

theorem grows_productOut (pool reserveIn reserveOut : Nat) :
    Grows (productOut pool reserveIn reserveOut) := by
  intro a b m n hle ha hb
  rw [(productOut_eq_ok_iff.1 ha).2.2, (productOut_eq_ok_iff.1 hb).2.2]
  exact productShare_le hle

theorem keepsZero_productOut (pool reserveIn reserveOut : Nat) :
    KeepsZero (productOut pool reserveIn reserveOut) := by
  intro n h
  rw [(productOut_eq_ok_iff.1 h).2.2, Nat.mul_zero, Nat.zero_div]

/-- A constant product has the same two reserves for every input, both positive. -/
theorem productSwap_eq_ok {pool n : Nat} {reserves : List Coin} {spread : Decimal} {tokenIn : Coin}
    {denomOut : Denom} (h : productSwap pool reserves spread tokenIn denomOut = .ok n) :
    ∃ reserveIn reserveOut, (0 < reserveIn ∧ 0 < reserveOut) ∧
      balanceOf pool reserves tokenIn.denom = .ok reserveIn ∧
      balanceOf pool reserves denomOut = .ok reserveOut ∧
      (retain pool tokenIn.amount spread >>= productOut pool reserveIn reserveOut) = .ok n := by
  obtain ⟨reserveIn, hin, h⟩ := bind_eq_ok_iff.1 h
  obtain ⟨reserveOut, hout, h⟩ := bind_eq_ok_iff.1 h
  split at h
  · cases h
  · next hreserves => exact ⟨reserveIn, reserveOut, by omega, hin, hout, h⟩

theorem grows_productSwap (pool : Nat) (reserves : List Coin) (spread : Decimal)
    (denomIn denomOut : Denom) :
    Grows fun amount => productSwap pool reserves spread ⟨denomIn, amount⟩ denomOut := by
  intro a b m n hle ha hb
  obtain ⟨reserveIn, reserveOut, -, hin, hout, hm⟩ := productSwap_eq_ok ha
  obtain ⟨reserveIn', reserveOut', -, hin', hout', hn⟩ := productSwap_eq_ok hb
  rw [hin, Except.ok.injEq] at hin'
  rw [hout, Except.ok.injEq] at hout'
  subst hin' hout'
  exact (grows_retain pool spread).bind (grows_productOut pool reserveIn reserveOut) hle hm hn

theorem keepsZero_productSwap (pool : Nat) (reserves : List Coin) (spread : Decimal)
    (denomIn denomOut : Denom) :
    KeepsZero fun amount => productSwap pool reserves spread ⟨denomIn, amount⟩ denomOut := by
  intro n h
  obtain ⟨reserveIn, reserveOut, -, -, -, hn⟩ := productSwap_eq_ok h
  exact (keepsZero_retain pool spread).bind (keepsZero_productOut pool reserveIn reserveOut) hn

theorem eq_of_transmute_eq_ok {pool n : Nat} {balances : List Coin} {tokenIn : Coin}
    {denomOut : Denom} (h : transmute pool balances tokenIn denomOut = .ok n) :
    n = tokenIn.amount := by
  obtain ⟨_, -, h⟩ := bind_eq_ok_iff.1 h
  obtain ⟨available, -, h⟩ := bind_eq_ok_iff.1 h
  split at h
  · cases h
  · cases h
    rfl

theorem grows_swap (c : Curve) (denomIn denomOut : Denom) :
    Grows fun amount => c.swap ⟨denomIn, amount⟩ denomOut := by
  cases c with
  | constantProduct pool reserves spread =>
    exact grows_productSwap pool reserves spread denomIn denomOut
  | transmuter pool balances =>
    intro a b m n hle ha hb
    rw [eq_of_transmute_eq_ok ha, eq_of_transmute_eq_ok hb]
    exact hle
  | unpriced pool reserves spread => exact grows_productSwap pool reserves spread denomIn denomOut

theorem keepsZero_swap (c : Curve) (denomIn denomOut : Denom) :
    KeepsZero fun amount => c.swap ⟨denomIn, amount⟩ denomOut := by
  cases c with
  | constantProduct pool reserves spread =>
    exact keepsZero_productSwap pool reserves spread denomIn denomOut
  | transmuter pool balances => exact fun n h => eq_of_transmute_eq_ok h
  | unpriced pool reserves spread =>
    exact keepsZero_productSwap pool reserves spread denomIn denomOut

end Curve

/-! ## Routes -/

/-- A trade along hops is a fee, a swap, and the trade along the rest. -/
theorem tradeThrough_cons (denomIn : Denom) (amount : Nat) (h : RouteHop) (rest : List RouteHop) :
    tradeThrough denomIn amount (h :: rest)
      = (do
        let charged ← chargeTakerFee amount h.takerFee
        let out ← h.pool.curve.swap ⟨denomIn, charged⟩ h.denomOut
        tradeThrough h.denomOut out rest) := by
  rw [tradeThrough, RouteHop.fill]
  simp only [bind_assoc]
  rfl

theorem grows_tradeThrough (denomIn : Denom) (hops : List RouteHop) :
    Grows fun amount => tradeThrough denomIn amount hops := by
  induction hops generalizing denomIn with
  | nil => exact Grows.ok
  | cons h rest ih =>
    simp only [tradeThrough_cons]
    exact (grows_retain 0 h.takerFee).bind
      ((h.pool.curve.grows_swap denomIn h.denomOut).bind (ih h.denomOut))

theorem keepsZero_tradeThrough (denomIn : Denom) (hops : List RouteHop) :
    KeepsZero fun amount => tradeThrough denomIn amount hops := by
  induction hops generalizing denomIn with
  | nil => exact KeepsZero.ok
  | cons h rest ih =>
    simp only [tradeThrough_cons]
    exact (keepsZero_retain 0 h.takerFee).bind
      ((h.pool.curve.keepsZero_swap denomIn h.denomOut).bind (ih h.denomOut))

namespace Route

theorem grows_amountOut (r : Route) (denomIn : Denom) : Grows (r.amountOut denomIn) :=
  grows_tradeThrough denomIn r.hops

theorem keepsZero_amountOut (r : Route) (denomIn : Denom) : KeepsZero (r.amountOut denomIn) :=
  keepsZero_tradeThrough denomIn r.hops

end Route

end SwapRouting
