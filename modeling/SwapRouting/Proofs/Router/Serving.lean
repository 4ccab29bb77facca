import SwapRouting.Proofs.Overwrite
import SwapRouting.Proofs.Quote
import SwapRouting.Proofs.Router.Ranking

/-! What a quote of the router satisfies.

Pinned routes, cached routes, fresh routes and given pools all end in a quote that serves what was asked
for: every split is attached to the current pools and leads from the one denom to the other, no pool
occurs twice, and the amounts are those of the current curves and fees. -/
namespace SwapRouting
set_option autoImplicit false

namespace Router

/-- The output that a quote states: a fixed output as it was asked for, else what the splits pay. -/
def statedOut (method : SwapMethod) (amount : Nat) (splits : List QuotedRoute) : Nat :=
  match method with
  | .exactIn => totalOut splits
  | .exactOut => amount

/-- What a quote satisfies that serves an order on the current pools. -/
structure Serves (r : Router) (order : SwapOrder) (denomOut : Denom) (quote : Quote) : Prop where
  leads : ∀ s ∈ quote.splits, r.Leads order.denomIn denomOut s.route
  apart : (quote.splits.flatMap fun s => s.route.poolIds).Nodup
  buys : ∀ s ∈ quote.splits, s.route.amountOut order.denomIn s.amountIn = .ok s.amountOut
  meets : Meets order quote.splits
  amountIn : quote.amountIn = ⟨order.denomIn, totalIn quote.splits⟩
  amountOut : quote.amountOut = ⟨denomOut, statedOut order.method order.amount quote.splits⟩

variable {r : Router} {now : Nat} {ctx : Context} {m : Memory} {quote : Quote}

/-! ## Preparing -/

theorem prepareQuote_eq_ok {method : SwapMethod} {denomIn denomOut : Denom} {amount : Nat}
    {splits : List QuotedRoute}
    (h : (r.prepareQuote method denomIn denomOut amount splits m).1 = .ok quote) :
    quote.splits = splits ∧ quote.amountIn = ⟨denomIn, totalIn splits⟩ ∧
      quote.amountOut = ⟨denomOut, statedOut method amount splits⟩ := by
  rw [prepareQuote] at h
  cases hprepared : (Quote.prepare method denomIn denomOut (r.tokens.scaling denomIn denomOut)
      splits).1 with
  | error e =>
    simp only [hprepared] at h
    cases h
  | ok prepared =>
    simp only [hprepared, Except.map, Except.ok.injEq] at h
    obtain ⟨hmethod, hsplits, hin, hout⟩ := Quote.prepare_eq_ok hprepared
    subst h
    cases method with
    | exactIn =>
      simp only [Quote.fixed, hmethod]
      exact ⟨hsplits, hin, hout⟩
    | exactOut =>
      simp only [Quote.fixed, hmethod]
      exact ⟨hsplits, hin, by rw [hout]; rfl⟩

theorem serves_of_prepareQuote (order : SwapOrder) {denomOut : Denom} {splits : List QuotedRoute}
    (hleads : ∀ s ∈ splits, r.Leads order.denomIn denomOut s.route)
    (hapart : (splits.flatMap fun s => s.route.poolIds).Nodup)
    (hbuys : ∀ s ∈ splits, s.route.amountOut order.denomIn s.amountIn = .ok s.amountOut)
    (hmeets : Meets order splits)
    (h : (r.prepareQuote order.method order.denomIn denomOut order.amount splits m).1 = .ok quote) :
    r.Serves order denomOut quote := by
  obtain ⟨hsplits, hin, hout⟩ := prepareQuote_eq_ok h
  subst hsplits
  exact ⟨hleads, hapart, hbuys, hmeets, hin, hout⟩

/-! ## Pinned and ranked routes -/

variable {q : QuoteRequest}

theorem caches_quotePinned (r : Router) (ctx : Context) (q : QuoteRequest)
    (pinned : List CandidateRoute) (m : Memory) :
    (r.quotePinned ctx q pinned m).2.caches = m.caches := by
  rw [quotePinned]
  split
  · rfl
  · rfl
  · rfl

theorem quotePinned_serves (hkeyed : r.generation.snapshot.Keyed) {pinned : List CandidateRoute}
    (hpinned : LeadTo q.denomOut pinned) (h : (r.quotePinned ctx q pinned m).1 = .ok quote) :
    r.Serves q.order q.denomOut quote := by
  rw [quotePinned] at h
  split at h
  · cases h
  · cases h
  · next best rest hranked =>
    have hranking := rankRoutes_spec hranked
    have hsingle : SplitOf ctx (r.splitLimits q) q.order (best :: rest) best [best] :=
      splitOf_single hranking
    obtain ⟨hleads, hnodup⟩ := leads_of_mem_attachAll hkeyed hpinned
      (hranking.mem_routes (List.mem_cons_self ..))
    refine serves_of_prepareQuote q.order ?_ ?_ hsingle.buys hsingle.meets h
    · intro s hs
      rw [List.mem_singleton.1 hs]
      exact hleads
    · simpa using hnodup

theorem leads_of_splitOf {limits : SplitLimits} {order : SwapOrder} {best : QuotedRoute}
    {ranked splits : List QuotedRoute} (hranks : r.Ranks q ranked)
    (h : SplitOf ctx limits order ranked best splits) :
    ∀ s ∈ splits, r.Leads q.denomIn q.denomOut s.route := by
  intro s hs
  obtain ⟨x, hx, hroute⟩ := List.mem_map.1 (h.routes.subset (List.mem_map_of_mem hs))
  exact hroute ▸ hranks.leads x hx

theorem quoteRanked_spec (hkeyed : r.generation.snapshot.Keyed) (hm : m.caches.Sound) (now : Nat)
    (ctx : Context) (q : QuoteRequest) :
    (r.quoteRanked now ctx q m).2.caches.Sound ∧
      ∀ quote, (r.quoteRanked now ctx q m).1 = .ok quote → r.Serves q.order q.denomOut quote := by
  obtain ⟨hsound, hranks⟩ := rankRequest_spec hkeyed hm now ctx q
  rw [quoteRanked]
  simp only
  split
  · exact ⟨hsound, nofun⟩
  · next qs hqs =>
    have hserved := hranks qs hqs
    split
    · exact ⟨hsound, nofun⟩
    · next splits hsplits =>
      refine ⟨hsound, fun quote hquote => ?_⟩
      obtain ⟨routes, hranking⟩ := hserved.ranking
      cases qs with
      | nil => exact absurd rfl hranking.ne_nil
      | cons best rest =>
        have hsplit := splitOf_of_optimize_eq_ok hranking hsplits
        have hsub := hsplit.routes.flatMap Route.poolIds
        rw [List.flatMap_map, List.flatMap_map] at hsub
        exact serves_of_prepareQuote q.order (leads_of_splitOf hserved hsplit)
          (hserved.apart.sublist hsub) hsplit.buys hsplit.meets hquote

/-- What every answer satisfies, whatever is pinned and cached. -/
theorem answer_spec (hkeyed : r.generation.snapshot.Keyed) (hpinned : r.overwrites.Sound)
    (hm : m.caches.Sound) (now : Nat) (ctx : Context) (q : QuoteRequest) :
    (r.answer now ctx q m).2.caches.Sound ∧
      ∀ quote, (r.answer now ctx q m).1 = .ok quote → r.Serves q.order q.denomOut quote := by
  rw [answer]
  split
  · exact ⟨hm, nofun⟩
  · split
    · next pinned hfound =>
      refine ⟨?_, fun quote hquote => ?_⟩
      · rw [caches_quotePinned]
        exact hm
      · rw [pinnedRoutes?] at hfound
        split at hfound
        · exact quotePinned_serves hkeyed (hpinned.get? hfound) hquote
        · cases hfound
    · exact quoteRanked_spec hkeyed hm now ctx q

theorem quote_spec (hkeyed : r.generation.snapshot.Keyed) (hpinned : r.overwrites.Sound)
    (hm : r.memory.caches.Sound) (now : Nat) (ctx : Context) (q : QuoteRequest) :
    (r.quote now ctx q).2.caches.Sound ∧
      ∀ quote, (r.quote now ctx q).1 = .ok quote → r.Serves q.order q.denomOut quote := by
  obtain ⟨hsound, hserves⟩ := answer_spec hkeyed hpinned hm now ctx q
  refine ⟨?_, hserves⟩
  rw [Router.quote]
  simp only
  split
  · exact hsound
  · exact hsound

/-! ## Given pools -/

theorem firstRepeated?_eq_none {seen ids : List Nat} (h : firstRepeated? seen ids = none) :
    ids.Nodup ∧ List.Disjoint ids seen := by
  induction ids generalizing seen with
  | nil => exact ⟨List.nodup_nil, List.disjoint_nil_left _⟩
  | cons id rest ih =>
    rw [firstRepeated?] at h
    split at h
    · cases h
    · next hfresh =>
      obtain ⟨hnodup, hdisjoint⟩ := ih h
      rw [List.disjoint_cons_right] at hdisjoint
      rw [List.nodup_cons, List.disjoint_cons_left]
      exact ⟨⟨hdisjoint.1, hnodup⟩, by simpa using hfresh, hdisjoint.2⟩

/-- Hops that connect pools go through all of them in their order. -/
theorem connect?_eq_some {denomIn denomOut : Denom} {pools : List Pool} {hops : List Hop}
    (h : connect? denomIn denomOut pools = some hops) :
    hops.map Hop.pool = pools.map (·.id) ∧ hops.getLast?.map Hop.denomOut = some denomOut := by
  induction pools generalizing denomIn hops with
  | nil => cases h
  | cons p rest ih =>
    cases rest with
    | nil =>
      rw [connect?] at h
      split at h
      · cases h
        exact ⟨rfl, rfl⟩
      · cases h
    | cons next others =>
      rw [connect?] at h
      split at h
      · cases h
      · obtain ⟨d, -, hd⟩ := List.exists_of_findSome?_eq_some h
        obtain ⟨tail, htail, rfl⟩ := Option.map_eq_some_iff.1 hd
        obtain ⟨hmap, hlast⟩ := ih htail
        refine ⟨congrArg (p.id :: ·) hmap, ?_⟩
        rw [List.getLast?_cons]
        obtain ⟨x, hx, hout⟩ := Option.map_eq_some_iff.1 hlast
        rw [hx]
        exact congrArg some hout

theorem map_id_of_mapM_pool_eq_ok (hkeyed : r.generation.snapshot.Keyed) {ids : List Nat}
    {pools : List Pool} (h : ids.mapM r.pool = .ok pools) : pools.map (·.id) = ids := by
  rw [mapM_eq_ok_iff] at h
  induction h with
  | nil => rfl
  | cons hp _ ih => rw [List.map_cons, hkeyed _ _ (orError_eq_ok_iff.1 hp), ih]

theorem customCandidate_eq_ok (hkeyed : r.generation.snapshot.Keyed) {tokenIn : Coin}
    {denomOut : Denom} {ids : List Nat} {c : CandidateRoute}
    (h : r.customCandidate tokenIn denomOut ids = .ok c) : LeadTo denomOut [c] := by
  obtain ⟨-, -, h1⟩ := bind_eq_ok_iff.1 h
  split at h1
  · cases h1
  · split at h1
    · cases h1
    · next hrepeated =>
      obtain ⟨pools, hpools, h2⟩ := bind_eq_ok_iff.1 h1
      obtain ⟨hops, hhops, h3⟩ := bind_eq_ok_iff.1 h2
      cases h3
      obtain ⟨hmap, hlast⟩ := connect?_eq_some (orError_eq_ok_iff.1 hhops)
      rw [map_id_of_mapM_pool_eq_ok hkeyed hpools] at hmap
      intro c hc
      rw [List.mem_singleton.1 hc]
      refine ⟨hlast, ?_⟩
      rw [CandidateRoute.poolIds]
      exact hmap ▸ (firstRepeated?_eq_none hrepeated).1

theorem caches_quoteCandidate (r : Router) (ctx : Context) (tokenIn : Coin) (denomOut : Denom)
    (c : CandidateRoute) :
    (r.quoteCandidate ctx tokenIn denomOut c).2.caches = r.memory.caches := by
  rw [quoteCandidate]
  split
  · rfl
  · rfl

theorem quoteCandidate_serves (hkeyed : r.generation.snapshot.Keyed) {tokenIn : Coin}
    {denomOut : Denom} {c : CandidateRoute} (hc : LeadTo denomOut [c])
    (h : (r.quoteCandidate ctx tokenIn denomOut c).1 = .ok quote) :
    r.Serves ⟨.exactIn, tokenIn.denom, tokenIn.amount⟩ denomOut quote := by
  rw [quoteCandidate] at h
  split at h
  · cases h
  · next s hs =>
    obtain ⟨-, -, h1⟩ := bind_eq_ok_iff.1 hs
    obtain ⟨route, hroute, h2⟩ := bind_eq_ok_iff.1 h1
    obtain ⟨out, hout, h3⟩ := bind_eq_ok_iff.1 h2
    cases h3
    have hmem : route ∈ (attachAll r.market tokenIn.denom [c]).1 :=
      mem_attachAll.2 ⟨c, List.mem_singleton.2 rfl, hroute⟩
    obtain ⟨hleads, hnodup⟩ := leads_of_mem_attachAll hkeyed hc hmem
    refine serves_of_prepareQuote ⟨.exactIn, tokenIn.denom, tokenIn.amount⟩
      ?_ ?_ ?_ ⟨?_, nofun⟩ h
    · intro s hs
      rw [List.mem_singleton.1 hs]
      exact hleads
    · simpa using hnodup
    · intro s hs
      rw [List.mem_singleton.1 hs]
      exact liftSwap_eq_ok_iff.1 hout
    · intro _
      exact sumIn_single _

theorem caches_customQuote (r : Router) (ctx : Context) (tokenIn : Coin) (denomOut : Denom)
    (ids : List Nat) : (r.customQuote ctx tokenIn denomOut ids).2.caches = r.memory.caches := by
  rw [customQuote]
  split
  · rfl
  · exact caches_quoteCandidate r ctx tokenIn denomOut _

theorem customQuote_serves (hkeyed : r.generation.snapshot.Keyed) {tokenIn : Coin}
    {denomOut : Denom} {ids : List Nat} (h : (r.customQuote ctx tokenIn denomOut ids).1 = .ok quote) :
    r.Serves ⟨.exactIn, tokenIn.denom, tokenIn.amount⟩ denomOut quote := by
  rw [customQuote] at h
  split at h
  · cases h
  · next c hc => exact quoteCandidate_serves hkeyed (customCandidate_eq_ok hkeyed hc) h

theorem caches_directQuote (r : Router) (ctx : Context) (tokenIn : Coin) (denomOut : Denom)
    (id : Nat) : (r.directQuote ctx tokenIn denomOut id).2.caches = r.memory.caches := by
  rw [directQuote]
  split
  · rfl
  · exact caches_quoteCandidate r ctx tokenIn denomOut _

theorem directQuote_serves (hkeyed : r.generation.snapshot.Keyed) {tokenIn : Coin}
    {denomOut : Denom} {id : Nat} (h : (r.directQuote ctx tokenIn denomOut id).1 = .ok quote) :
    r.Serves ⟨.exactIn, tokenIn.denom, tokenIn.amount⟩ denomOut quote := by
  rw [directQuote] at h
  split at h
  · cases h
  · refine quoteCandidate_serves hkeyed ?_ h
    intro c hc
    rw [List.mem_singleton.1 hc]
    exact ⟨rfl, List.nodup_singleton id⟩

end Router

end SwapRouting
