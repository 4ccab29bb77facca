import SwapRouting.Proofs.Quote
import SwapRouting.Proofs.Route.Completeness

/-! Quotes of what was traded before.

The full quote of a route keeps prices along the way, and still pays the coin that a plain trade pays, or
fails as it does. So splits that were found by plain trades are quoted again for the amounts that they have,
and the quote that is prepared of them states the sum of these. -/
namespace SwapRouting
set_option autoImplicit false

/-! ## One route -/

section
variable {r : Route} {tokenIn : Coin}

end

/-! ## Splits of an order -/

section
variable {order : SwapOrder} {routes : List Route} {splits : List QuotedRoute}

/-- Whether these are routes of a ranking, quoted for the whole order. -/
def RankedSplits (order : SwapOrder) (routes : List Route) (splits : List QuotedRoute) : Prop :=
  ∃ ctx preferred qs, (rankRoutes ctx preferred order routes).1 = .ok qs ∧ splits.Sublist qs

/-- Whether this is how an order is split over a ranking, with or without the routes that share a pool. -/
def OptimizedSplits (order : SwapOrder) (routes : List Route) (splits : List QuotedRoute) : Prop :=
  ∃ ctx ctx' preferred limits qs ranked, (rankRoutes ctx preferred order routes).1 = .ok qs ∧
    (ranked = qs ∨ ranked = dropSharedPools qs) ∧ (optimize ctx' limits order ranked).1 = .ok splits

/-- What ranked routes and splits of them have in common. -/
structure PaidSplits (order : SwapOrder) (routes : List Route) (splits : List QuotedRoute) : Prop where
  among : ∀ s ∈ splits, s.route ∈ routes
  few : splits.length ≤ routes.length
  buys : ∀ s ∈ splits, s.route.amountOut order.denomIn s.amountIn = .ok s.amountOut
  alone : splits.length = 1 → order.amount < Amount.bound → sumIn splits < Amount.bound

theorem RankingOf.length_le {preferred : List Nat} {qs : List QuotedRoute}
    (h : RankingOf preferred order routes qs) : qs.length ≤ routes.length := by
  obtain ⟨some, hperm, hsub⟩ := h.routes
  have hle := hsub.length_le
  rw [← hperm.length_eq, List.length_map] at hle
  exact hle

theorem sumIn_lt_of_length_eq_one (hpays : ∀ s ∈ splits, s.Pays order) (hone : splits.length = 1)
    (hamount : order.amount < Amount.bound) : sumIn splits < Amount.bound := by
  obtain ⟨s, rfl⟩ := List.length_eq_one_iff.1 hone
  rw [sumIn_single]
  exact Route.amountIn_lt_of_quoteFor_eq_ok hamount (hpays s (List.mem_singleton_self s)).quoted

theorem RankedSplits.paid (h : RankedSplits order routes splits) : PaidSplits order routes splits := by
  obtain ⟨ctx, preferred, qs, hqs, hsub⟩ := h
  have hranking := rankRoutes_spec hqs
  have hpays : ∀ s ∈ splits, s.Pays order := fun s hs => hranking.pays s (hsub.subset hs)
  refine ⟨fun s hs => hranking.mem_routes (hsub.subset hs), hsub.length_le.trans hranking.length_le,
    fun s hs => ?_, sumIn_lt_of_length_eq_one hpays⟩
  exact (Route.quoteFor_answers (hpays s hs).quoted).buys

/-- The split that an order gets is one of the ranking that it was made from. -/
theorem OptimizedSplits.exists_splitOf (h : OptimizedSplits order routes splits) :
    ∃ ctx preferred limits best rest, RankingOf preferred order routes (best :: rest) ∧
      SplitOf ctx limits order (best :: rest) best splits := by
  obtain ⟨ctx, ctx', preferred, limits, qs, ranked, hqs, hranked, hsplits⟩ := h
  have hranking : RankingOf preferred order routes ranked := by
    rcases hranked with rfl | rfl
    · exact rankRoutes_spec hqs
    · exact (rankRoutes_spec hqs).dropSharedPools
  obtain ⟨best, rest, rfl⟩ := List.exists_cons_of_ne_nil hranking.ne_nil
  exact ⟨ctx', preferred, limits, best, rest, hranking, splitOf_of_optimize_eq_ok hranking hsplits⟩

theorem OptimizedSplits.paid (h : OptimizedSplits order routes splits) : PaidSplits order routes splits := by
  obtain ⟨ctx, preferred, limits, best, rest, hranking, hsplit⟩ := h.exists_splitOf
  have hlength := hsplit.routes.length_le
  rw [List.length_map, List.length_map] at hlength
  refine ⟨fun s hs => ?_, hlength.trans hranking.length_le, hsplit.buys, fun hone => ?_⟩
  · obtain ⟨q, hq, hroute⟩ := List.mem_map.1 (hsplit.routes.subset (List.mem_map_of_mem hs))
    rw [← hroute]
    exact hranking.mem_routes hq
  · rcases hsplit.origin with hsingle | hwinning
    · refine sumIn_lt_of_length_eq_one (fun s hs => ?_) hone
      rw [hsingle, List.mem_singleton] at hs
      exact hs ▸ hranking.pays best (List.mem_cons_self ..)
    · exact absurd hone hwinning.several.ne'

end

/-! ## Agreement -/

end SwapRouting
