import SwapRouting.Proofs.Outcome
import SwapRouting.Split.Ranking

/-! Trades along a route and the search for an input.

A trade leaves the range of decimals only through a fee or a spread, so a route that trades one amount
never leaves it for another. The search for an input returns one that buys enough, whatever the curves
are. Both together say what a quoted route is: its output is what its input buys, and the fixed side of
the order is met. -/
namespace SwapRouting
set_option autoImplicit false

/-! ## Fees in the range of decimals -/

/-- Whether the curve can take its spread from an input. -/
def Curve.SpreadInRange : Curve → Prop
  | constantProduct _ _ spread => ∃ share, Decimal.one.sub? spread = some share
  | transmuter _ _ => True
  | unpriced _ _ spread => ∃ share, Decimal.one.sub? spread = some share

def RouteHop.FeesInRange (h : RouteHop) : Prop :=
  (∃ share, Decimal.one.sub? h.takerFee = some share) ∧ h.pool.curve.SpreadInRange

/-- Whether every hop can take its fees from an input. -/
def Route.FeesInRange (r : Route) : Prop := ∀ h ∈ r.hops, h.FeesInRange

theorem share_of_retain_eq_ok {pool amount n : Nat} {fee : Decimal}
    (h : retain pool amount fee = .ok n) : ∃ share, Decimal.one.sub? fee = some share := by
  obtain ⟨share, hshare, -⟩ := bind_eq_ok_iff.1 h
  exact ⟨share, orError_eq_ok_iff.1 hshare⟩

theorem retain_ne_decimalRange {pool amount : Nat} {fee : Decimal}
    (h : ∃ share, Decimal.one.sub? fee = some share) :
    retain pool amount fee ≠ .error .decimalRange := by
  intro he
  obtain ⟨share, hshare⟩ := h
  rcases bind_eq_error_iff.1 he with h1 | ⟨a, -, h2⟩
  · rw [hshare] at h1
    simp [orError] at h1
  · have h3 := (orError_eq_error_iff.1 h2).2
    cases h3

theorem balanceOf_ne_decimalRange {pool : Nat} {coins : List Coin} {denom : Denom} :
    balanceOf pool coins denom ≠ .error .decimalRange := by
  intro h
  have h1 := (orError_eq_error_iff.1 h).2
  cases h1

theorem productOut_ne_decimalRange {pool reserveIn reserveOut amountIn : Nat} :
    Curve.productOut pool reserveIn reserveOut amountIn ≠ .error .decimalRange := by
  intro h
  rcases bind_eq_error_iff.1 h with h1 | ⟨a, -, h2⟩
  · have h3 := (orError_eq_error_iff.1 h1).2
    cases h3
  · rcases bind_eq_error_iff.1 h2 with h3 | ⟨b, -, h4⟩
    · have h5 := (orError_eq_error_iff.1 h3).2
      cases h5
    · cases h4

theorem share_of_productSwap_eq_ok {pool n : Nat} {reserves : List Coin} {spread : Decimal}
    {tokenIn : Coin} {denomOut : Denom}
    (h : Curve.productSwap pool reserves spread tokenIn denomOut = .ok n) :
    ∃ share, Decimal.one.sub? spread = some share := by
  obtain ⟨reserveIn, -, h1⟩ := bind_eq_ok_iff.1 h
  obtain ⟨reserveOut, -, h2⟩ := bind_eq_ok_iff.1 h1
  split at h2
  · cases h2
  · obtain ⟨amountIn, h3, -⟩ := bind_eq_ok_iff.1 h2
    exact share_of_retain_eq_ok h3

theorem productSwap_ne_decimalRange {pool : Nat} {reserves : List Coin} {spread : Decimal}
    {tokenIn : Coin} {denomOut : Denom} (h : ∃ share, Decimal.one.sub? spread = some share) :
    Curve.productSwap pool reserves spread tokenIn denomOut ≠ .error .decimalRange := by
  intro he
  rcases bind_eq_error_iff.1 he with h1 | ⟨reserveIn, -, h1⟩
  · exact balanceOf_ne_decimalRange h1
  rcases bind_eq_error_iff.1 h1 with h2 | ⟨reserveOut, -, h2⟩
  · exact balanceOf_ne_decimalRange h2
  split at h2
  · cases h2
  rcases bind_eq_error_iff.1 h2 with h3 | ⟨amountIn, -, h3⟩
  · exact retain_ne_decimalRange h h3
  · exact productOut_ne_decimalRange h3

theorem transmute_ne_decimalRange {pool : Nat} {balances : List Coin} {tokenIn : Coin}
    {denomOut : Denom} : Curve.transmute pool balances tokenIn denomOut ≠ .error .decimalRange := by
  intro he
  rcases bind_eq_error_iff.1 he with h1 | ⟨b, -, h1⟩
  · exact balanceOf_ne_decimalRange h1
  rcases bind_eq_error_iff.1 h1 with h2 | ⟨available, -, h2⟩
  · exact balanceOf_ne_decimalRange h2
  split at h2 <;> cases h2

theorem Curve.spreadInRange_of_swap_eq_ok {c : Curve} {tokenIn : Coin} {denomOut : Denom} {n : Nat}
    (h : c.swap tokenIn denomOut = .ok n) : c.SpreadInRange := by
  cases c with
  | constantProduct pool reserves spread => exact share_of_productSwap_eq_ok h
  | transmuter pool balances => exact trivial
  | unpriced pool reserves spread => exact share_of_productSwap_eq_ok h

theorem Curve.swap_ne_decimalRange {c : Curve} (h : c.SpreadInRange) (tokenIn : Coin)
    (denomOut : Denom) : c.swap tokenIn denomOut ≠ .error .decimalRange := by
  cases c with
  | constantProduct pool reserves spread => exact productSwap_ne_decimalRange h
  | transmuter pool balances => exact transmute_ne_decimalRange
  | unpriced pool reserves spread => exact productSwap_ne_decimalRange h

theorem RouteHop.feesInRange_of_fill_eq_ok {h : RouteHop} {denomIn : Denom} {amount : Nat} {f : Fill}
    (hf : h.fill denomIn amount = .ok f) : h.FeesInRange := by
  obtain ⟨charged, h1, h2⟩ := bind_eq_ok_iff.1 hf
  obtain ⟨out, h3, -⟩ := bind_eq_ok_iff.1 h2
  exact ⟨share_of_retain_eq_ok h1, Curve.spreadInRange_of_swap_eq_ok h3⟩

theorem RouteHop.fill_ne_decimalRange {h : RouteHop} (hfees : h.FeesInRange) (denomIn : Denom)
    (amount : Nat) : h.fill denomIn amount ≠ .error .decimalRange := by
  intro he
  rcases bind_eq_error_iff.1 he with h1 | ⟨charged, -, h1⟩
  · exact retain_ne_decimalRange hfees.1 h1
  rcases bind_eq_error_iff.1 h1 with h2 | ⟨out, -, h2⟩
  · exact Curve.swap_ne_decimalRange hfees.2 _ _ h2
  · cases h2

/-! ## Routes -/

theorem feesInRange_of_tradeThrough_eq_ok {hops : List RouteHop} {denomIn : Denom} {amount n : Nat}
    (h : tradeThrough denomIn amount hops = .ok n) : ∀ x ∈ hops, x.FeesInRange := by
  induction hops generalizing denomIn amount with
  | nil => simp
  | cons hop rest ih =>
    obtain ⟨f, hfill, hrest⟩ := bind_eq_ok_iff.1 h
    intro x hx
    rcases List.mem_cons.1 hx with rfl | hx
    · exact RouteHop.feesInRange_of_fill_eq_ok hfill
    · exact ih hrest x hx

theorem tradeThrough_ne_decimalRange {hops : List RouteHop} (hfees : ∀ x ∈ hops, x.FeesInRange)
    (denomIn : Denom) (amount : Nat) : tradeThrough denomIn amount hops ≠ .error .decimalRange := by
  induction hops generalizing denomIn amount with
  | nil => simp [tradeThrough]
  | cons hop rest ih =>
    intro he
    rcases bind_eq_error_iff.1 he with h1 | ⟨f, -, h1⟩
    · exact RouteHop.fill_ne_decimalRange (hfees hop (List.mem_cons_self ..)) _ _ h1
    · exact ih (fun x hx => hfees x (List.mem_cons_of_mem _ hx)) _ _ h1

namespace Route

theorem feesInRange_of_amountOut_eq_ok {r : Route} {denomIn : Denom} {amount n : Nat}
    (h : r.amountOut denomIn amount = .ok n) : r.FeesInRange :=
  feesInRange_of_tradeThrough_eq_ok h

theorem amountOut_ne_decimalRange {r : Route} (h : r.FeesInRange) (denomIn : Denom)
    (amount : Nat) : r.amountOut denomIn amount ≠ .error .decimalRange :=
  tradeThrough_ne_decimalRange h denomIn amount

/-! ## The input for a wanted output -/

section
variable {buys : Nat → Except SwapError Nat} {tooLarge : SwapError} {target lo hi n : Nat}
  {w : Nat × Nat}

/-- What holds of the window at the first input that buys enough, and is kept by doubling one that buys too
little, holds of the window that is found. -/
theorem bracket_induction {motive : Nat → Nat → Nat × Nat → Prop}
    (found : ∀ lo hi out, buys hi = .ok out → target ≤ out → motive lo hi (lo, hi))
    (double : ∀ lo hi out w, buys hi = .ok out → out < target → 0 < hi → 2 * hi < inputBound →
      motive hi (2 * hi) w → motive lo hi w)
    (h : bracket buys tooLarge target lo hi = .ok w) : motive lo hi w := by
  induction lo, hi using bracket.induct buys target with
  | case1 lo hi e he =>
    rw [bracket, he] at h
    cases h
  | case2 lo hi out he hle =>
    rw [bracket, he] at h
    simp only [hle, if_true, Except.ok.injEq] at h
    exact h ▸ found lo hi out he hle
  | case3 lo hi out he hle hbound ih =>
    rw [bracket, he] at h
    simp only [hle, if_false, hbound, and_self, dite_true] at h
    exact double lo hi out w he (by omega) hbound.1 hbound.2 (ih h)
  | case4 lo hi out he hle hbound =>
    rw [bracket, he] at h
    simp [hle, hbound] at h

/-- What holds of the upper end of a window without an inside, and is kept by halving a window on either
side, holds of the input that is found. -/
theorem bisect_induction {motive : Nat → Nat → Nat → Prop}
    (closed : ∀ lo hi, hi - lo ≤ 1 → motive lo hi hi)
    (lower : ∀ lo hi out n, 1 < hi - lo → buys (lo + (hi - lo) / 2) = .ok out → target ≤ out →
      motive lo (lo + (hi - lo) / 2) n → motive lo hi n)
    (upper : ∀ lo hi out n, 1 < hi - lo → buys (lo + (hi - lo) / 2) = .ok out → out < target →
      motive (lo + (hi - lo) / 2) hi n → motive lo hi n)
    (h : bisect buys target lo hi = .ok n) : motive lo hi n := by
  induction lo, hi using bisect.induct buys target with
  | case1 lo hi hgap =>
    rw [bisect] at h
    simp only [hgap, dite_true, Except.ok.injEq] at h
    exact h ▸ closed lo hi hgap
  | case2 lo hi hgap e he =>
    rw [bisect] at h
    simp [hgap, he] at h
  | case3 lo hi hgap out he hle ih =>
    rw [bisect] at h
    simp only [hgap, dite_false, he, hle, if_true] at h
    exact lower lo hi out n (by omega) he hle (ih h)
  | case4 lo hi hgap out he hle ih =>
    rw [bisect] at h
    simp only [hgap, dite_false, he, hle, if_false] at h
    exact upper lo hi out n (by omega) he (by omega) (ih h)

theorem bracket_buys (h : bracket buys tooLarge target lo hi = .ok w) :
    ∃ out, buys w.2 = .ok out ∧ target ≤ out := by
  refine bracket_induction (motive := fun _ _ w => ∃ out, buys w.2 = .ok out ∧ target ≤ out) ?_ ?_ h
  · exact fun lo hi out he hle => ⟨out, he, hle⟩
  · exact fun lo hi out w _ _ _ _ ih => ih

/-- Halving never leaves the inputs that buy enough. -/
theorem bisect_buys (hhi : ∃ out, buys hi = .ok out ∧ target ≤ out)
    (h : bisect buys target lo hi = .ok n) : ∃ out, buys n = .ok out ∧ target ≤ out := by
  refine bisect_induction (motive := fun _ hi n => (∃ out, buys hi = .ok out ∧ target ≤ out) →
    ∃ out, buys n = .ok out ∧ target ≤ out) ?_ ?_ ?_ h hhi
  · exact fun lo hi _ hhi => hhi
  · exact fun lo hi out n _ he hle ih _ => ih ⟨out, he, hle⟩
  · exact fun lo hi out n _ _ _ ih hhi => ih hhi

end

theorem bracket_ne_decimalRange {buys : Nat → Except SwapError Nat} {tooLarge : SwapError}
    (hbuys : ∀ n, buys n ≠ .error .decimalRange) (hlarge : tooLarge ≠ .decimalRange)
    (target lo hi : Nat) : bracket buys tooLarge target lo hi ≠ .error .decimalRange := by
  induction lo, hi using bracket.induct buys target with
  | case1 lo hi e he =>
    rw [bracket, he]
    have h1 := hbuys hi
    rw [he] at h1
    simpa using h1
  | case2 lo hi out he hle =>
    rw [bracket, he]
    simp [hle]
  | case3 lo hi out he hle hbound ih =>
    rw [bracket, he]
    simpa only [hle, if_false, hbound, and_self, dite_true] using ih
  | case4 lo hi out he hle hbound =>
    rw [bracket, he]
    simpa [hle, hbound] using hlarge

theorem bisect_ne_decimalRange {buys : Nat → Except SwapError Nat}
    (hbuys : ∀ n, buys n ≠ .error .decimalRange) (target lo hi : Nat) :
    bisect buys target lo hi ≠ .error .decimalRange := by
  induction lo, hi using bisect.induct buys target with
  | case1 lo hi hgap =>
    rw [bisect]
    simp [hgap]
  | case2 lo hi hgap e he =>
    have h1 := hbuys (lo + (hi - lo) / 2)
    rw [he] at h1
    rw [bisect]
    simpa [hgap, he] using h1
  | case3 lo hi hgap out he hle ih =>
    rw [bisect]
    simpa only [hgap, dite_false, he, hle, if_true] using ih
  | case4 lo hi hgap out he hle ih =>
    rw [bisect]
    simpa only [hgap, dite_false, he, hle, if_false] using ih

theorem requiredInput_buys {r : Route} {denomIn : Denom} {target n : Nat} (htarget : 0 < target)
    (h : r.requiredInput denomIn target = .ok n) :
    ∃ out, r.amountOut denomIn n = .ok out ∧ target ≤ out := by
  rw [requiredInput, if_neg (by omega)] at h
  obtain ⟨w, hw, hn⟩ := bind_eq_ok_iff.1 h
  exact bisect_buys (bracket_buys hw) hn

/-- Doubling ends at an input that is small or the one it started from. -/
theorem bracket_le {buys : Nat → Except SwapError Nat} {tooLarge : SwapError}
    {target lo hi : Nat} {w : Nat × Nat} (hle : lo ≤ hi)
    (h : bracket buys tooLarge target lo hi = .ok w) : w.1 ≤ w.2 ∧ w.2 ≤ max hi inputBound := by
  refine bracket_induction
    (motive := fun lo hi w => lo ≤ hi → w.1 ≤ w.2 ∧ w.2 ≤ max hi inputBound) ?_ ?_ h hle
  · exact fun lo hi out _ _ hle => ⟨hle, Nat.le_max_left ..⟩
  · intro lo hi out w _ _ _ hbound ih _
    have hrest := ih (by omega)
    omega

theorem bisect_le {buys : Nat → Except SwapError Nat} {target lo hi n : Nat} (hle : lo ≤ hi)
    (h : bisect buys target lo hi = .ok n) : n ≤ hi := by
  refine bisect_induction (motive := fun lo hi n => lo ≤ hi → n ≤ hi) ?_ ?_ ?_ h hle
  · exact fun lo hi _ _ => Nat.le_refl hi
  · intro lo hi out n hgap _ _ ih _
    have hrest := ih (by omega)
    omega
  · exact fun lo hi out n hgap _ _ ih _ => ih (by omega)

/-- An input that was searched for is an amount of 128 bits if the wanted output is one. -/
theorem requiredInput_lt {r : Route} {denomIn : Denom} {target n : Nat}
    (htarget : target < Amount.bound) (h : r.requiredInput denomIn target = .ok n) :
    n < Amount.bound := by
  have hsmall : inputBound < Amount.bound := by decide
  rw [requiredInput] at h
  split at h
  · cases h
    decide
  · obtain ⟨w, hw, hn⟩ := bind_eq_ok_iff.1 h
    obtain ⟨hwindow, hbound⟩ := bracket_le (Nat.zero_le target) hw
    have hle := bisect_le hwindow hn
    omega

theorem requiredInput_ne_decimalRange {r : Route} (h : r.FeesInRange) (denomIn : Denom)
    (target : Nat) : r.requiredInput denomIn target ≠ .error .decimalRange := by
  have hbuys := amountOut_ne_decimalRange h denomIn
  rw [requiredInput]
  split
  · simp
  · intro he
    rcases bind_eq_error_iff.1 he with h1 | ⟨w, -, h1⟩
    · exact bracket_ne_decimalRange hbuys (by simp [tooDeep]) _ _ _ h1
    · exact bisect_ne_decimalRange hbuys _ _ _ h1

end Route

/-! ## Quoted routes -/

/-- What a quoted route promises to an order: its output is what its input buys, and the fixed side of
the order is met. -/
structure QuotedRoute.Answers (q : QuotedRoute) (method : SwapMethod) (denomIn : Denom)
    (amount : Nat) : Prop where
  buys : q.route.amountOut denomIn q.amountIn = .ok q.amountOut
  takes : method = .exactIn → q.amountIn = amount
  pays : method = .exactOut → amount ≤ q.amountOut

namespace Route

theorem route_of_quoteFor_eq_ok {r : Route} {method : SwapMethod} {denomIn : Denom} {amount : Nat}
    {q : QuotedRoute} (h : r.quoteFor method denomIn amount = .ok q) : q.route = r := by
  cases method with
  | exactIn =>
    obtain ⟨out, -, h1⟩ := bind_eq_ok_iff.1 h
    cases h1
    rfl
  | exactOut =>
    obtain ⟨needed, -, h1⟩ := bind_eq_ok_iff.1 h
    obtain ⟨out, -, h2⟩ := bind_eq_ok_iff.1 h1
    cases h2
    rfl

theorem quoteFor_answers {r : Route} {method : SwapMethod} {denomIn : Denom} {amount : Nat}
    {q : QuotedRoute} (h : r.quoteFor method denomIn amount = .ok q) :
    q.Answers method denomIn amount := by
  cases method with
  | exactIn =>
    obtain ⟨out, hout, h1⟩ := bind_eq_ok_iff.1 h
    cases h1
    exact ⟨hout, fun _ => rfl, nofun⟩
  | exactOut =>
    obtain ⟨needed, hneeded, h1⟩ := bind_eq_ok_iff.1 h
    obtain ⟨out, hout, h2⟩ := bind_eq_ok_iff.1 h1
    cases h2
    refine ⟨hout, nofun, fun _ => ?_⟩
    rcases Nat.eq_zero_or_pos amount with rfl | hpos
    · exact Nat.zero_le _
    · obtain ⟨out', hout', hle⟩ := requiredInput_buys hpos hneeded
      rw [hout, Except.ok.injEq] at hout'
      exact hout' ▸ hle

theorem amountIn_lt_of_quoteFor_eq_ok {r : Route} {method : SwapMethod} {denomIn : Denom}
    {amount : Nat} {q : QuotedRoute} (hamount : amount < Amount.bound)
    (h : r.quoteFor method denomIn amount = .ok q) : q.amountIn < Amount.bound := by
  cases method with
  | exactIn =>
    obtain ⟨out, -, h1⟩ := bind_eq_ok_iff.1 h
    cases h1
    exact hamount
  | exactOut =>
    obtain ⟨needed, hneeded, h1⟩ := bind_eq_ok_iff.1 h
    obtain ⟨out, -, h2⟩ := bind_eq_ok_iff.1 h1
    cases h2
    exact requiredInput_lt hamount hneeded

theorem feesInRange_of_quoteFor_eq_ok {r : Route} {method : SwapMethod} {denomIn : Denom}
    {amount : Nat} {q : QuotedRoute} (h : r.quoteFor method denomIn amount = .ok q) :
    r.FeesInRange := by
  have h1 := (quoteFor_answers h).buys
  rw [route_of_quoteFor_eq_ok h] at h1
  exact feesInRange_of_amountOut_eq_ok h1

theorem quoteFor_ne_decimalRange {r : Route} (h : r.FeesInRange) (method : SwapMethod)
    (denomIn : Denom) (amount : Nat) :
    r.quoteFor method denomIn amount ≠ .error .decimalRange := by
  intro he
  cases method with
  | exactIn =>
    rcases bind_eq_error_iff.1 he with h1 | ⟨out, -, h1⟩
    · exact amountOut_ne_decimalRange h _ _ h1
    · cases h1
  | exactOut =>
    rcases bind_eq_error_iff.1 he with h1 | ⟨needed, -, h1⟩
    · exact requiredInput_ne_decimalRange h _ _ h1
    · rcases bind_eq_error_iff.1 h1 with h2 | ⟨out, -, h2⟩
      · exact amountOut_ne_decimalRange h _ _ h2
      · cases h2

end Route

end SwapRouting
