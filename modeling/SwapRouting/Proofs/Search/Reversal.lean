import Mathlib.Data.List.Induction
import SwapRouting.Proofs.Cache
import SwapRouting.Proofs.Route.Reversal
import SwapRouting.Proofs.Search.Shortest
import SwapRouting.Proofs.TakerFee

/-! Candidates of a pair, from either side.

A search has a direction, the candidates kept for a pair have none. The routes found from one denom can be
turned around: every hop goes through a pool of the generation between two of its denoms, whichever way. And a
search from the other side finds a route as well, for the pools of a route read backwards are a chain that
the search may take. -/
namespace SwapRouting
set_option autoImplicit false

/-! ## Chains backwards -/

section
variable {market : Pool → Prop} {a b d : Denom} {pools : List Pool}

theorem Chain.cons {p : Pool} (hp : market p) (ha : p.holds a) (hd : p.holds d)
    (h : Chain market d pools b) : Chain market a (p :: pools) b := by
  induction h with
  | nil => exact Chain.nil.snoc hp ha hd
  | snoc _ hq hfrom hto ih => exact ih.snoc hq hfrom hto

theorem Chain.reverse (h : Chain market a pools b) : Chain market b pools.reverse a := by
  induction h with
  | nil => exact Chain.nil
  | snoc _ hp hfrom hto ih =>
    rw [List.reverse_append]
    exact ih.cons hp hto hfrom

end

namespace Search

theorem arrival_eq_arrivesAt (req : SearchRequest) (path : Path) :
    arrival req path = arrivesAt req.denomIn path := by
  cases path using List.reverseRecOn with
  | nil => rfl
  | append_singleton path h => rw [arrivesAt_concat, arrival_concat]

/-- A pool that the search may take at the end of a path trades what the path arrived at. -/
theorem Offers.trades {index : LiquidityIndex} {req : SearchRequest} {market : Pool → Prop}
    {s : PoolSnapshot} (hlists : index.Lists req.minLiquidity market)
    (hmarket : ∀ p, market p → s.get? p.id = some p) {path : Path} {pool : Pool}
    (h : Offers index req path pool) {d : Denom} (hd : pool.holds d) (hne : arrival req path ≠ d) :
    s.Trades pool.id (arrivesAt req.denomIn path) d := by
  obtain ⟨hpool, hholds⟩ := h.mem_market hlists
  rw [← arrival_eq_arrivesAt]
  exact ⟨pool, hmarket pool hpool, hholds, hd, hne⟩

/-- The search goes from denom to denom through pools that trade. No path arrives at the wanted denom,
since a pool that holds it ends the route. -/
theorem keeps_tradable {index : LiquidityIndex} {req : SearchRequest} {market : Pool → Prop}
    {s : PoolSnapshot} (hlists : index.Lists req.minLiquidity market)
    (hmarket : ∀ p, market p → s.get? p.id = some p) (hne : req.denomIn ≠ req.denomOut) :
    Keeps index req
      (fun path => Tradable s req.denomIn path ∧ arrival req path ≠ req.denomOut)
      (fun r => Tradable s req.denomIn r.hops) where
  start := ⟨trivial, hne⟩
  extend := by
    rintro path pool d ⟨htrades, -⟩ hoffers haway - hd hnew -
    have hholds : pool.holds d := List.contains_iff_mem.2 hd
    refine ⟨tradable_concat.2 ⟨htrades, hoffers.trades hlists hmarket hholds hnew.symm⟩, ?_⟩
    rw [arrival_concat]
    rintro rfl
    rw [haway] at hholds
    cases hholds
  finish := by
    rintro path pool ⟨htrades, harrival⟩ hoffers hout
    exact tradable_concat.2 ⟨htrades, hoffers.trades hlists hmarket hout harrival⟩

theorem found_ne_nil_iff {index : LiquidityIndex} {req : SearchRequest} {market : Pool → Prop}
    (hlists : index.Lists req.minLiquidity market) (hne : req.denomIn ≠ req.denomOut) :
    found index req req.maxPools ≠ [] ↔ 0 < req.maxRoutes ∧
      ∃ pools, Chain market req.denomIn pools req.denomOut ∧ pools.length ≤ req.maxPools := by
  constructor
  · intro hfound
    obtain ⟨r, hr⟩ := List.exists_mem_of_ne_nil _ hfound
    obtain ⟨pools, hchain, -, hlen⟩ := chain_of_mem_found hlists hr
    exact ⟨(List.length_pos_iff.2 hfound).trans_le (collected_found _).length_le, pools, hchain, hlen⟩
  · rintro ⟨hroutes, pools, hchain, hlen⟩
    obtain ⟨first, rest, hfound, -⟩ := found_of_chain hlists hne hroutes hchain hlen
    rw [hfound]
    exact List.cons_ne_nil _ _

end Search

/-- The same search from the other side. -/
def SearchRequest.swapped (req : SearchRequest) : SearchRequest :=
  { req with denomIn := req.denomOut, denomOut := req.denomIn }

section
variable {block : Block} {config : RouterConfig} {whitelist : CodeWhitelist} {ctx : Context}
variable {req : SearchRequest} {routes : List CandidateRoute}

theorem tradable_of_findRoutes
    (hfind : findRoutes ctx (Generation.build block config whitelist).index req = .ok routes)
    {r : CandidateRoute} (hr : r ∈ routes) :
    Tradable (Generation.build block config whitelist).snapshot req.denomIn r.hops := by
  have hlists := Generation.lists_build block config whitelist req.minLiquidity
  have hmarket : ∀ p, (Generation.build block config whitelist).Eligible config req.minLiquidity p →
      (Generation.build block config whitelist).snapshot.get? p.id = some p := fun p hp =>
    Generation.get?_id_of_mem_values block config whitelist hp.mem
  have hne := (findRoutes_leadTo hfind).1
  exact (findRoutes_has (Search.keeps_tradable hlists hmarket hne) hfind).2 r hr

/-- Where a search finds a route, the search from the other side does. -/
theorem findRoutes_swapped (hctx : ∀ n, ctx.isDone .search n = false) (hpools : 0 < req.maxPools)
    (hfind : findRoutes ctx (Generation.build block config whitelist).index req = .ok routes)
    (hroutes : routes ≠ []) {ctx' : Context} (hctx' : ∀ n, ctx'.isDone .search n = false) :
    ∃ back, findRoutes ctx' (Generation.build block config whitelist).index req.swapped = .ok back ∧
      back ≠ [] := by
  have hlists := Generation.lists_build block config whitelist req.minLiquidity
  have hlists' := Generation.lists_build block config whitelist req.swapped.minLiquidity
  have hne := (findRoutes_leadTo hfind).1
  have hne' : req.swapped.denomIn ≠ req.swapped.denomOut := hne.symm
  rw [findRoutes_eq_found hctx hne hpools, Except.ok.injEq] at hfind
  subst hfind
  obtain ⟨hmax, pools, hchain, hlen⟩ := (Search.found_ne_nil_iff hlists hne).1 hroutes
  have hlen' : pools.reverse.length ≤ req.maxPools := by
    rw [List.length_reverse]
    exact hlen
  refine ⟨_, findRoutes_eq_found hctx' hne' hpools, ?_⟩
  exact (Search.found_ne_nil_iff hlists' hne').2 ⟨hmax, pools.reverse, hchain.reverse, hlen'⟩

end

/-! ## What the cache gives for a pair -/

namespace RouteCaches

variable (caches : RouteCaches) (policy : CachePolicy) {now later : Nat} {denomIn denomOut : Denom}
variable (routes : CandidateRoutes)

theorem candidates?_setCandidates (hlater : later < now + policy.candidateTime) :
    (caches.setCandidates policy now denomIn denomOut routes).candidates? later denomIn denomOut
      = some routes := by
  unfold candidates? setCandidates
  rw [ExpiringCache.get?_insert, if_pos rfl, if_pos hlater, Option.map_some, StoredCandidates.seenFrom,
    if_pos rfl]

theorem candidates?_setCandidates_swapped (hlater : later < now + policy.candidateTime)
    (hne : denomIn ≠ denomOut) :
    (caches.setCandidates policy now denomIn denomOut routes).candidates? later denomOut denomIn
      = some (routes.reversed denomIn) := by
  unfold candidates? setCandidates
  rw [ExpiringCache.get?_insert, if_pos (DenomPair.of_comm denomIn denomOut), if_pos hlater,
    Option.map_some, StoredCandidates.seenFrom, if_neg hne]

end RouteCaches

/-- What the candidates of a pair give from both sides while they are kept: from the first denom the
routes that were found, from the other one a route back over each of them. Nor would a fresh search from
the other side find nothing. -/
structure BothWays (g : Generation) (req : SearchRequest) (routes : List CandidateRoute)
    (stored : RouteCaches) (later : Nat) : Prop where
  forth : stored.candidates? later req.denomIn req.denomOut = some (CandidateRoutes.ofRoutes routes)
  back : ∃ turned, stored.candidates? later req.denomOut req.denomIn = some turned ∧
    ∀ fee, List.Forall₂ (TurnedAround ⟨g.snapshot, g.fees, fee⟩ req.denomIn req.denomOut) routes
      turned.routes
  fresh : ∀ ctx : Context, (∀ n, ctx.isDone .search n = false) →
    ∃ others, findRoutes ctx g.index req.swapped = .ok others ∧ others ≠ []

theorem bothWays_setCandidates (block : Block) (config : RouterConfig) (whitelist : CodeWhitelist)
    {ctx : Context} (hctx : ∀ n, ctx.isDone .search n = false) {req : SearchRequest}
    (hpools : 0 < req.maxPools) {routes : List CandidateRoute}
    (hfind : findRoutes ctx (Generation.build block config whitelist).index req = .ok routes)
    (hroutes : routes ≠ []) (caches : RouteCaches) (policy : CachePolicy) {now later : Nat}
    (hlater : later < now + policy.candidateTime) :
    BothWays (Generation.build block config whitelist) req routes
      (caches.setCandidates policy now req.denomIn req.denomOut (CandidateRoutes.ofRoutes routes))
      later := by
  obtain ⟨hne, hlead⟩ := findRoutes_leadTo hfind
  refine ⟨caches.candidates?_setCandidates policy _ hlater, ?_, ?_⟩
  · refine ⟨_, caches.candidates?_setCandidates_swapped policy _ hlater hne, ?_⟩
    intro fee
    unfold CandidateRoutes.reversed CandidateRoutes.ofRoutes
    rw [List.forall₂_map_right_iff, List.forall₂_same]
    intro r hr
    exact turnedAround_reversed (hlead r hr).1 (tradable_of_findRoutes hfind hr)
  · intro ctx' hctx'
    exact findRoutes_swapped hctx hpools hfind hroutes hctx'

theorem detour_bothWays :
    findRoutes .background (Generation.build detour {} {}).index detourRequest
        = .ok [⟨[⟨2, "b"⟩, ⟨5, "d"⟩]⟩, ⟨[⟨2, "b"⟩, ⟨3, "c"⟩, ⟨4, "d"⟩]⟩] ∧
      BothWays (Generation.build detour {} {}) detourRequest
        [⟨[⟨2, "b"⟩, ⟨5, "d"⟩]⟩, ⟨[⟨2, "b"⟩, ⟨3, "c"⟩, ⟨4, "d"⟩]⟩]
        (RouteCaches.empty.setCandidates ⟨60, 60, true⟩ 5 "a" "d"
          (.ofRoutes [⟨[⟨2, "b"⟩, ⟨5, "d"⟩]⟩, ⟨[⟨2, "b"⟩, ⟨3, "c"⟩, ⟨4, "d"⟩]⟩])) 64 := by
  have hctx : ∀ n, Context.background.isDone .search n = false := fun _ => rfl
  have hrun : findRoutes .background (Generation.build detour {} {}).index detourRequest
      = .ok [⟨[⟨2, "b"⟩, ⟨5, "d"⟩]⟩, ⟨[⟨2, "b"⟩, ⟨3, "c"⟩, ⟨4, "d"⟩]⟩] := by
    rw [findRoutes_eq_found hctx (by decide) (by decide)]
    rfl
  exact ⟨hrun, bothWays_setCandidates detour {} {} hctx (by decide) hrun (List.cons_ne_nil _ _)
    RouteCaches.empty ⟨60, 60, true⟩ (by decide)⟩

end SwapRouting
