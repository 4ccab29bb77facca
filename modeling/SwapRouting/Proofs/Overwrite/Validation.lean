import SwapRouting.Proofs.Overwrite
import SwapRouting.Proofs.Route.Reversal

/-! Pinned routes that can be quoted.

The check of pinned routes and attaching them look at the same pools and denoms, hop by hop. But only
attaching refuses a hop that pays out the denom it takes in. So routes can be quoted exactly if they pass
the check and none of their hops does that. -/
namespace SwapRouting
set_option autoImplicit false

/-- Whether every hop pays out another denom than it takes in. -/
def Changing (denomIn : Denom) : List Hop → Prop
  | [] => True
  | h :: r => denomIn ≠ h.denomOut ∧ Changing h.denomOut r

theorem tradable_iff {s : PoolSnapshot} {denomIn : Denom} {hops : List Hop} :
    Tradable s denomIn hops ↔ Held s denomIn hops ∧ Changing denomIn hops := by
  induction hops generalizing denomIn with
  | nil => simp [Tradable, Held, Changing]
  | cons h r ih =>
    rw [Tradable, Held, Changing, ih, PoolSnapshot.Trades]
    constructor
    · rintro ⟨⟨p, hget, hin, hout, hne⟩, hheld, hchanging⟩
      exact ⟨⟨⟨p, hget, hin, hout⟩, hheld⟩, hne, hchanging⟩
    · rintro ⟨⟨⟨p, hget, hin, hout⟩, hheld⟩, hne, hchanging⟩
      exact ⟨⟨p, hget, hin, hout, hne⟩, hheld, hchanging⟩

namespace Market

/-- Routes that a market can quote in place of those that are searched for: all of them attach and end in
one denom, and none repeats a pool. -/
structure CanQuote (m : Market) (denomIn : Denom) (routes : List CandidateRoute) : Prop where
  nonempty : routes ≠ []
  attach : ∀ c ∈ routes, ∃ r, m.attach denomIn c = .ok r
  nodup : ∀ c ∈ routes, c.poolIds.Nodup
  meet : ∃ d, ∀ c ∈ routes, c.denomOut? = some d

theorem canQuote_iff {m : Market} {denomIn : Denom} {routes : List CandidateRoute} :
    m.CanQuote denomIn routes ↔ overwriteViolations m.snapshot denomIn routes = [] ∧
      ∀ c ∈ routes, Changing denomIn c.hops := by
  rw [overwriteViolations_eq_nil_iff]
  constructor
  · rintro ⟨hne, hattach, hnodup, d, hend⟩
    have htradable : ∀ c ∈ routes, Held m.snapshot denomIn c.hops ∧ Changing denomIn c.hops :=
      fun c hc => tradable_iff.1 (attach_isOk_iff.1 (hattach c hc)).2
    exact ⟨⟨hne, d, fun c hc => ⟨hend c hc, hnodup c hc, (htradable c hc).1⟩⟩,
      fun c hc => (htradable c hc).2⟩
  · rintro ⟨⟨hne, d, hall⟩, hchanging⟩
    refine ⟨hne, ?_, fun c hc => (hall c hc).2.1, d, fun c hc => (hall c hc).1⟩
    intro c hc
    obtain ⟨hend, -, hheld⟩ := hall c hc
    refine attach_isOk_iff.2 ⟨?_, tradable_iff.2 ⟨hheld, hchanging c hc⟩⟩
    intro hempty
    rw [CandidateRoute.denomOut?, hempty] at hend
    cases hend

/-- Two pools of one pair. -/
def idleMarket : Market where
  snapshot := PoolSnapshot.ofPools 1 ([1, 2].map fun id => PoolRecord.constantProduct
    ⟨id, .constantProduct, ["a", "b"], [⟨"a", 1000⟩, ⟨"b", 1000⟩], Decimal.zero, 0⟩)
  fees := FeeTable.empty
  defaultFee := Decimal.zero

/-- The first hop pays out the denom that goes in. -/
def idleRoute : CandidateRoute := ⟨[⟨1, "a"⟩, ⟨2, "b"⟩]⟩

/-- A route that passes the check and does not attach. -/
theorem idleRoute_passes_check : ¬ ∀ (m : Market) (denomIn : Denom) (routes : List CandidateRoute),
    overwriteViolations m.snapshot denomIn routes = [] ↔ m.CanQuote denomIn routes := by
  intro h
  have hpasses : overwriteViolations idleMarket.snapshot "a" [idleRoute] = [] := by decide
  have hquote := (h idleMarket "a" [idleRoute]).1 hpasses
  obtain ⟨r, hr⟩ := hquote.attach idleRoute (List.mem_singleton_self _)
  have hfails : idleMarket.attach "a" idleRoute = .error (.selfSwap 1 "a") := by decide
  rw [hfails] at hr
  cases hr

end Market

end SwapRouting
