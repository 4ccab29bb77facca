import SwapRouting.Proofs.Config
import SwapRouting.Proofs.LiquidityIndex
import SwapRouting.Proofs.Router.History

/-! Searches look up tiers.

The filter that settings give to a token is one of the tiers that an index keeps lists for. So a search that
is not told another threshold finds the same routes in an index without its full lists, which nothing but a
threshold between the tiers would be applied to. -/
namespace SwapRouting
set_option autoImplicit false

/-! ## Lookups -/

namespace LiquidityIndex

variable {index : LiquidityIndex} {threshold : Nat}

/-- The index without its full lists: nothing is left but the lists of its tiers. -/
def onTiers (index : LiquidityIndex) : LiquidityIndex :=
  { index with byDenom := index.byDenom.map fun e => { e with sorted := [] } }

theorem get?_byDenom_onTiers (index : LiquidityIndex) (denom : Denom) :
    index.onTiers.byDenom.get? denom
      = (index.byDenom.get? denom).map fun e => { e with sorted := [] } :=
  Dict.get?_map _ index.byDenom denom

theorem knows_onTiers (index : LiquidityIndex) (denom : Denom) :
    index.onTiers.knows denom = index.knows denom := by
  rw [knows, knows, Dict.contains, Dict.contains, get?_byDenom_onTiers, Option.isSome_map]

theorem liquidity_onTiers (index : LiquidityIndex) (denom : Denom) :
    index.onTiers.liquidity denom = index.liquidity denom := by
  rw [liquidity, liquidity, get?_byDenom_onTiers]
  cases index.byDenom.get? denom with
  | none => rfl
  | some e => rfl

/-- The list of a tier is looked up where the tier stands. -/
theorem pools?_of_tier {i : Nat} (h : index.tiers.idxOf? threshold = some i) (denom : Denom) :
    index.pools? denom threshold = (index.byDenom.get? denom).map fun e => (e.tiered[i]?).getD [] := by
  simp only [pools?, h]

theorem pools?_onTiers (h : threshold ∈ index.tiers) (denom : Denom) :
    index.onTiers.pools? denom threshold = index.pools? denom threshold := by
  obtain ⟨i, hi⟩ : ∃ i, index.tiers.idxOf? threshold = some i := by
    cases hidx : index.tiers.idxOf? threshold with
    | none => exact absurd h (List.idxOf?_eq_none_iff.1 hidx)
    | some i => exact ⟨i, rfl⟩
  have hsame : index.onTiers.tiers.idxOf? threshold = some i := hi
  rw [pools?_of_tier hi, pools?_of_tier hsame, get?_byDenom_onTiers, Option.map_map]
  rfl

end LiquidityIndex

theorem length_buckets (preferred tiers : List Nat) (closed : Nat) (pools : List Pool) :
    (buckets preferred tiers closed pools).length = tiers.length := by
  induction pools generalizing closed with
  | nil => exact List.length_map _
  | cons p r ih =>
    rw [buckets]
    split
    · rw [List.length_map, ih]
    · simp only
      split
      · exact List.length_map _
      · rw [List.length_mapIdx, ih]

theorem pools?_build_of_tier {config : RouterConfig} {lists : Dict Denom (List Pool)} {threshold : Nat}
    (h : threshold ∈ (LiquidityIndex.build lists config).tiers) {denom : Denom} {e : DenomPools}
    (he : (LiquidityIndex.build lists config).byDenom.get? denom = some e) :
    ∃ (i : Nat) (pools : List Pool), (LiquidityIndex.build lists config).tiers[i]? = some threshold ∧
      e.tiered[i]? = some pools ∧
      (LiquidityIndex.build lists config).pools? denom threshold = some pools := by
  cases hi : (LiquidityIndex.build lists config).tiers.idxOf? threshold with
  | none => exact absurd h (List.idxOf?_eq_none_iff.1 hi)
  | some i =>
    obtain ⟨hlt, hval, -⟩ := List.idxOf?_eq_some_iff.1 hi
    have hlength : e.tiered.length = (LiquidityIndex.build lists config).tiers.length := by
      rw [get?_byDenom_build] at he
      obtain ⟨pools, -, rfl⟩ := Option.map_eq_some_iff.1 he
      exact length_buckets _ _ _ _
    have hpools : e.tiered[i]? = some e.tiered[i] := List.getElem?_eq_getElem (hlength ▸ hlt)
    refine ⟨i, e.tiered[i], hval ▸ List.getElem?_eq_getElem hlt, hpools, ?_⟩
    rw [LiquidityIndex.pools?_of_tier hi, he, Option.map_some, hpools, Option.getD_some]

/-! ## Searches -/

namespace Search

variable {index index' : LiquidityIndex} {req : SearchRequest}

/-- Whether a search looks up the same in two indexes. -/
structure SameLookups (index index' : LiquidityIndex) (req : SearchRequest) : Prop where
  pools? : ∀ denom, index'.pools? denom req.minLiquidity = index.pools? denom req.minLiquidity
  knows : ∀ denom, index'.knows denom = index.knows denom

namespace SameLookups

theorem grow (h : SameLookups index index' req) : Search.grow index' req = Search.grow index req := by
  funext visited path g pool
  simp only [Search.grow, extensions, h.knows]

theorem expand (h : SameLookups index index' req) : Search.expand index' req = Search.expand index req := by
  funext p path
  rw [Search.expand, Search.expand, h.pools?, h.grow]

theorem sweep (h : SameLookups index index' req) (ctx : Context) (p : Progress) (level : List Path) :
    Search.sweep ctx index' req p level = Search.sweep ctx index req p level := by
  induction level generalizing p with
  | nil => rfl
  | cons path rest ih => rw [Search.sweep, Search.sweep, h.expand, ih]

theorem explore (h : SameLookups index index' req) (ctx : Context) (p : Progress) (level : List Path) :
    Search.explore ctx index' req p level = Search.explore ctx index req p level := by
  -- both searches end at the same level, so the cases are those of either one
  induction p, level using Search.explore.induct ctx index req with
  | case1 p level e hsweep =>
    rw [explore_of_sweep_eq_error hsweep, explore_of_sweep_eq_error ((h.sweep ..).trans hsweep)]
  | case2 p level p' hsweep hfull =>
    rw [explore_of_sweep_eq_ok hsweep, explore_of_sweep_eq_ok ((h.sweep ..).trans hsweep), if_pos hfull,
      if_pos hfull]
  | case3 p level p' hsweep hfull hempty =>
    rw [explore_of_sweep_eq_ok hsweep, explore_of_sweep_eq_ok ((h.sweep ..).trans hsweep), if_neg hfull,
      if_neg hfull, if_pos hempty, if_pos hempty]
  | case4 p level p' hsweep hfull hempty ih =>
    rw [explore_of_sweep_eq_ok hsweep, explore_of_sweep_eq_ok ((h.sweep ..).trans hsweep), if_neg hfull,
      if_neg hfull, if_neg hempty, if_neg hempty, ih]

end SameLookups

end Search

theorem findRoutes_onTiers {index : LiquidityIndex} {req : SearchRequest} (h : req.minLiquidity ∈ index.tiers)
    (ctx : Context) : findRoutes ctx index.onTiers req = findRoutes ctx index req := by
  have hsame : Search.SameLookups index index.onTiers req :=
    ⟨LiquidityIndex.pools?_onTiers h, index.knows_onTiers⟩
  rw [findRoutes, findRoutes, hsame.explore]

/-! ## The index of a router -/

namespace Router

variable {r : Router}

/-- Whether the generation of a router is that of a block under its settings, or none came yet. -/
def BuiltByConfig (r : Router) : Prop :=
  r.generation = Generation.empty ∨ ∃ block whitelist, r.generation = Generation.build block r.config whitelist

theorem BuiltByConfig.perform (h : r.BuiltByConfig) (op : Operation) : (r.perform op).BuiltByConfig := by
  cases op with
  | block block whitelist => exact Or.inr ⟨block, whitelist, rfl⟩
  | reopen => exact Or.inl rfl
  | pin denomIn routes =>
    rw [Router.perform, Router.overwriteRoutes]
    split
    · exact h
    · exact h
  | load =>
    rw [Router.perform, Router.loadOverwrites]
    split
    · exact h
    · exact h
  | _ => exact h

theorem Reachable.builtByConfig (h : r.Reachable) : r.BuiltByConfig := by
  obtain ⟨start, history, ⟨config, tokens, enabled, persistent, directory, hcreate⟩, rfl⟩ := h
  have hstart : start.BuiltByConfig := by
    rw [create] at hcreate
    split at hcreate
    · cases hcreate
    · cases hcreate
      exact Or.inl rfl
  induction history using List.reverseRecOn with
  | nil => exact hstart
  | append_singleton history op ih =>
    rw [run, List.foldl_append]
    exact BuiltByConfig.perform ih op

/-- The router whose index has nothing but tiers. -/
def onTiers (r : Router) : Router :=
  { r with generation := { r.generation with index := r.generation.index.onTiers } }

/-- A search under the filter of the settings needs tiers only. -/
theorem searchRoutes_onTiers (h : r.BuiltByConfig) {o : QuoteOptions} (ho : o.minLiquidity = none)
    (ctx : Context) (denomIn denomOut : Denom) (m : Memory) :
    r.onTiers.searchRoutes ctx denomIn denomOut o m = r.searchRoutes ctx denomIn denomOut o m := by
  have hfilter : r.onTiers.liquidityFilter denomIn denomOut = r.liquidityFilter denomIn denomOut := by
    show r.config.liquidityFilter (min (r.generation.index.onTiers.liquidity denomIn)
      (r.generation.index.onTiers.liquidity denomOut)) = _
    rw [LiquidityIndex.liquidity_onTiers, LiquidityIndex.liquidity_onTiers]
    rfl
  have hrequest : r.onTiers.searchRequest denomIn denomOut o = r.searchRequest denomIn denomOut o := by
    rw [searchRequest, searchRequest, hfilter]
    rfl
  have hfound : findRoutes ctx r.generation.index.onTiers (r.searchRequest denomIn denomOut o)
      = findRoutes ctx r.generation.index (r.searchRequest denomIn denomOut o) := by
    rcases h with hempty | ⟨block, whitelist, hbuilt⟩
    · rw [hempty]
      rfl
    · refine findRoutes_onTiers ?_ ctx
      rw [searchRequest, ho, Option.getD_none, hbuilt]
      exact List.mem_reverse.2 (r.config.liquidityFilter_mem_tiers _)
  have hindex : r.onTiers.generation.index = r.generation.index.onTiers := rfl
  rw [searchRoutes, searchRoutes, hrequest, hindex, hfound]

end Router

/-! ## The filter of a token -/

/-- How settings choose the filter of a token: the strictest one that it reaches, for which every index keeps
lists. -/
structure RouterConfig.StrictestFilters (c : RouterConfig) : Prop where
  strictest : ∀ tokensCap,
    c.liquidityFilter tokensCap = (c.reachedFilters tokensCap).max?.getD c.minPoolLiquidityCap
  rising : ∀ low high, low ≤ high → (∃ f ∈ c.dynamicFilters, f.minTokensCap ≤ low) →
    c.liquidityFilter low ≤ c.liquidityFilter high
  tier : ∀ lists tokensCap, c.liquidityFilter tokensCap ∈ (LiquidityIndex.build lists c).tiers
  lookup : ∀ lists tokensCap denom e, (LiquidityIndex.build lists c).byDenom.get? denom = some e →
    ∃ (i : Nat) (pools : List Pool),
      (LiquidityIndex.build lists c).tiers[i]? = some (c.liquidityFilter tokensCap) ∧
      e.tiered[i]? = some pools ∧
      (LiquidityIndex.build lists c).pools? denom (c.liquidityFilter tokensCap) = some pools
  search : ∀ r : Router, r.Reachable → r.config = c →
    ∀ (o : QuoteOptions) ctx denomIn denomOut m, o.minLiquidity = none →
      r.onTiers.searchRoutes ctx denomIn denomOut o m = r.searchRoutes ctx denomIn denomOut o m

theorem RouterConfig.strictestFilters_of_validate {c : RouterConfig} (h : c.validate = .ok ()) :
    c.StrictestFilters := by
  have htier : ∀ lists tokensCap, c.liquidityFilter tokensCap ∈ (LiquidityIndex.build lists c).tiers :=
    fun lists tokensCap => List.mem_reverse.2 (c.liquidityFilter_mem_tiers tokensCap)
  constructor
  · exact liquidityFilter_eq_max? h
  · rintro low high hle ⟨f, hf, hcap⟩
    refine liquidityFilter_mono h hle (List.ne_nil_of_mem (a := f.filterValue) ?_)
    exact mem_reachedFilters_iff.2 ⟨f, hf, hcap, rfl⟩
  · exact htier
  · intro lists tokensCap denom e he
    exact pools?_build_of_tier (htier lists tokensCap) he
  · intro r hr _ o ctx denomIn denomOut m ho
    exact Router.searchRoutes_onTiers hr.builtByConfig ho ctx denomIn denomOut m

def threeFilters : RouterConfig :=
  { minPoolLiquidityCap := 7
    dynamicFilters := [⟨300000, 30000⟩, ⟨20000, 2000⟩, ⟨1000, 100⟩] }

/-- A token just below an entry has the filter of the next one, and one below all entries that of last
resort. -/
theorem threeFilters_strictest : threeFilters.validate = .ok () ∧ threeFilters.StrictestFilters ∧
    threeFilters.liquidityFilter 299999 = 2000 ∧ threeFilters.liquidityFilter 999 = 7 ∧
    threeFilters.liquidityTiers = [7, 100, 2000, 30000] := by
  have hvalid : threeFilters.validate = .ok () := by decide
  exact ⟨hvalid, RouterConfig.strictestFilters_of_validate hvalid, by decide, by decide, by decide⟩

end SwapRouting
