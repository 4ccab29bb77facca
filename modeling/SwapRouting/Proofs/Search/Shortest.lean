import Mathlib.Data.Nat.Find
import SwapRouting.Proofs.Search.Levels

/-! The search finds a route where there is one, and a shortest one first.

The search leaves many paths out: those through pools whose paths were expanded before, those that
return to the denom they started from, and all but the routes at a pool that holds the wanted denom. None
of this loses the shortest routes. All denoms of a pool on a path are at most as many hops away as the
path has gone, so a pool that leads one hop farther than the level was neither visited before nor is it on
the path, and it does not hold the first denom. -/
namespace SwapRouting
set_option autoImplicit false

/-- Pools of a market through which a denom can be traded for another one: each pool takes the denom that
the one before it pays out. -/
inductive Chain (market : Pool → Prop) (start : Denom) : List Pool → Denom → Prop
  | nil : Chain market start [] start
  | snoc {pools : List Pool} {p : Pool} {d e : Denom} : Chain market start pools d → market p →
      p.holds d → p.holds e → Chain market start (pools ++ [p]) e

section
variable {market : Pool → Prop} {start : Denom}

/-- Whether a denom is at most so many hops away. -/
def Within (market : Pool → Prop) (start : Denom) (n : Nat) (d : Denom) : Prop :=
  ∃ pools, Chain market start pools d ∧ pools.length ≤ n

theorem Within.mono {m n : Nat} (hle : m ≤ n) {d : Denom} (h : Within market start m d) :
    Within market start n d := by
  obtain ⟨pools, hchain, hlen⟩ := h
  exact ⟨pools, hchain, hlen.trans hle⟩

theorem Within.step {n : Nat} {p : Pool} {d e : Denom} (h : Within market start n d) (hp : market p)
    (hd : p.holds d) (he : p.holds e) : Within market start (n + 1) e := by
  obtain ⟨pools, hchain, hlen⟩ := h
  refine ⟨pools ++ [p], hchain.snoc hp hd he, ?_⟩
  rw [List.length_append, List.length_singleton]
  omega

theorem Within.zero {d : Denom} (h : Within market start 0 d) : d = start := by
  obtain ⟨pools, hchain, hlen⟩ := h
  cases hchain with
  | nil => rfl
  | snoc =>
    rw [List.length_append, List.length_singleton] at hlen
    omega

/-- A pool all of whose denoms are at most so many hops away. -/
def Near (market : Pool → Prop) (start : Denom) (n : Nat) (id : Nat) : Prop :=
  ∀ p, market p → p.id = id → ∀ d, p.holds d → Within market start n d

theorem Near.mono {m n : Nat} (hle : m ≤ n) {id : Nat} (h : Near market start m id) :
    Near market start n id :=
  fun p hp hid d hd => (h p hp hid d hd).mono hle

end

namespace Search

variable {index : LiquidityIndex} {req : SearchRequest} {market : Pool → Prop}

/-! ## How far the pools of a level are -/

/-- A path that follows a chain, with all its pools near. -/
structure Follows (market : Pool → Prop) (req : SearchRequest) (path : Path) : Prop where
  chain : ∃ pools, Chain market req.denomIn pools (arrival req path) ∧
    path.map (·.pool) = pools.map (·.id)
  near : ∀ id ∈ path.map (·.pool), Near market req.denomIn path.length id

theorem Follows.within {path : Path} (h : Follows market req path) :
    Within market req.denomIn path.length (arrival req path) := by
  obtain ⟨pools, hchain, hids⟩ := h.chain
  refine ⟨pools, hchain, ?_⟩
  have hlen := congrArg List.length hids
  rw [List.length_map, List.length_map] at hlen
  exact hlen.ge

theorem follows_of_mem_level (hlists : index.Lists req.minLiquidity market) {k : Nat} {path : Path}
    (h : path ∈ (level index req k).paths) : Follows market req path := by
  induction k generalizing path with
  | zero =>
    rw [List.mem_singleton.1 h]
    exact ⟨⟨[], Chain.nil, rfl⟩, List.forall_mem_nil _⟩
  | succ k ih =>
    obtain ⟨before, q, after, hlevel, hpath⟩ := mem_along.1 h
    have hq : q ∈ (level index req k).paths := hlevel ▸ List.mem_append_cons_self
    have hfollows := ih hq
    obtain ⟨-, pool, hpool, -, d, hd, -, -, rfl⟩ := mem_branches hpath
    obtain ⟨hmarket, hholds⟩ := (mem_poolsAt hlists).1 hpool
    have hholdsd : pool.holds d := List.contains_iff_mem.2 hd
    obtain ⟨pools, hchain, hids⟩ := hfollows.chain
    refine ⟨⟨pools ++ [pool], ?_, ?_⟩, ?_⟩
    · rw [arrival_concat]
      exact hchain.snoc hmarket hholds hholdsd
    · rw [List.map_append, List.map_append, hids]
      rfl
    · intro id hid
      rw [List.length_append, List.length_singleton]
      rw [List.map_append, List.mem_append] at hid
      rcases hid with hid | hid
      · exact (hfollows.near id hid).mono (Nat.le_succ _)
      · intro p hp hpid e he
        have hsame : p = pool := hlists.unique p pool hp hmarket (hpid.trans (List.mem_singleton.1 hid))
        exact hfollows.within.step hmarket hholds (hsame ▸ he)

/-- The pools of a path and the pools visited before it are near. -/
theorem near_of_mem_before (hlists : index.Lists req.minLiquidity market) {k : Nat}
    {before after : List Path} {path : Path}
    (hlevel : (level index req k).paths = before ++ path :: after) {id : Nat}
    (h : id ∈ before.foldl visit (level index req k).visited ∨ id ∈ path.map (·.pool)) :
    Near market req.denomIn k id := by
  have hpaths : ∃ j ≤ k, ∃ q ∈ (level index req j).paths, id ∈ q.map (·.pool) := by
    rcases h with h | h
    · exact exists_path_of_visited hlevel h
    · exact ⟨k, Nat.le_refl k, path, hlevel ▸ List.mem_append_cons_self, h⟩
  obtain ⟨j, hj, q, hq, hid⟩ := hpaths
  have hnear := (follows_of_mem_level hlists hq).near id hid
  rw [length_of_mem_level hq] at hnear
  exact hnear.mono hj

/-- A pool that leads farther than the level may be used by every path of it. -/
theorem mayUse_of_farther (hlists : index.Lists req.minLiquidity market) {k : Nat}
    {before after : List Path} {path : Path}
    (hlevel : (level index req k).paths = before ++ path :: after) {p : Pool} (hp : market p)
    {e : Denom} (he : p.holds e) (hfar : ¬ Within market req.denomIn k e) :
    mayUse req (before.foldl visit (level index req k).visited) path p := by
  have hnew : ¬ Near market req.denomIn k p.id := fun hnear => hfar (hnear p hp rfl e he)
  have hmem : path ∈ (level index req k).paths := hlevel ▸ List.mem_append_cons_self
  have hvisited : p.id ∉ before.foldl visit (level index req k).visited :=
    fun h => hnew (near_of_mem_before hlists hlevel (Or.inl h))
  have hpath : usesPool path p.id = false := by
    rw [Bool.eq_false_iff]
    intro huses
    obtain ⟨h, hh, hid⟩ := List.any_eq_true.1 huses
    rw [beq_iff_eq] at hid
    exact hnew (near_of_mem_before hlists hlevel (Or.inr (hid ▸ List.mem_map_of_mem hh)))
  have haway : path ≠ [] → p.holds req.denomIn = false := by
    intro hne
    rw [Bool.eq_false_iff]
    intro hin
    -- a pool with the first denom leads one hop far, and the path has gone at least one hop
    have hpos : 1 ≤ k := by
      rw [← length_of_mem_level hmem]
      exact List.length_pos_iff.2 hne
    have hone : Within market req.denomIn 1 e := Within.step ⟨[], Chain.nil, Nat.le_refl 0⟩ hp hin he
    exact hfar (hone.mono hpos)
  exact mayUse_iff.2 ⟨hvisited, hpath, haway⟩

/-! ## Every denom is reached by a shortest path -/

theorem exists_path_of_chain (hlists : index.Lists req.minLiquidity market) {pools : List Pool}
    {d : Denom} (hchain : Chain market req.denomIn pools d)
    (hshort : ∀ n < pools.length, ¬ Within market req.denomIn n d)
    (hout : ¬ Within market req.denomIn pools.length req.denomOut)
    (hlen : pools.length < req.maxPools) :
    ∃ path ∈ (level index req pools.length).paths, arrival req path = d := by
  induction hchain with
  | nil => exact ⟨[], List.mem_singleton_self _, rfl⟩
  | @snoc pools p d e hchain hp hd he ih =>
    rw [List.length_append, List.length_singleton] at hshort hout hlen ⊢
    have hwithin : Within market req.denomIn pools.length d := ⟨pools, hchain, Nat.le_refl _⟩
    obtain ⟨path, hpath, harrival⟩ := ih
      (fun n hn h => hshort (n + 1) (Nat.succ_lt_succ hn) (h.step hp hd he))
      (fun h => hout (h.mono (Nat.le_succ _))) (by omega)
    obtain ⟨before, after, hlevel⟩ := List.append_of_mem hpath
    have hfar : ¬ Within market req.denomIn pools.length e := hshort _ (Nat.lt_succ_self _)
    have hmay := mayUse_of_farther hlists hlevel hp he hfar
    have haway : p.holds req.denomOut = false := by
      rw [Bool.eq_false_iff]
      exact fun h => hout (hwithin.step hp hd h)
    have hpass : passesThrough req (before.foldl visit (level index req pools.length).visited) path p :=
      passesThrough_iff.2 ⟨hmay, haway⟩
    have hlast : path.length + 1 < req.maxPools := by
      rw [length_of_mem_level hpath]
      exact hlen
    have hne : e ≠ arrival req path := by
      rintro rfl
      exact hfar (harrival ▸ hwithin)
    have hbranch := branches_mem hlast ((mem_poolsAt hlists).2 ⟨hp, harrival ▸ hd⟩) hpass
      (List.contains_iff_mem.1 he) hne (hlists.known e p hp he)
    exact ⟨_, mem_along.2 ⟨before, path, after, hlevel, hbranch⟩, arrival_concat path p.id e⟩

/-- At the distance of the wanted denom the search offers a route. -/
theorem offered_of_chain (hlists : index.Lists req.minLiquidity market)
    (hne : req.denomIn ≠ req.denomOut) {n : Nat}
    (hwithin : Within market req.denomIn n req.denomOut)
    (hshort : ∀ m < n, ¬ Within market req.denomIn m req.denomOut) (hlen : n ≤ req.maxPools) :
    ∃ k, n = k + 1 ∧ offered index req k ≠ [] := by
  obtain ⟨pools, hchain, hle⟩ := hwithin
  have hn : pools.length = n := by
    by_contra hlt
    exact hshort pools.length (by omega) ⟨pools, hchain, Nat.le_refl _⟩
  generalize hout : req.denomOut = out at hchain
  cases hchain with
  | nil => exact absurd hout.symm hne
  | @snoc pools p d _ hchain hp hd he =>
    subst hout
    rw [List.length_append, List.length_singleton] at hn
    refine ⟨pools.length, hn.symm, ?_⟩
    have hfar : ¬ Within market req.denomIn pools.length req.denomOut := hshort _ (by omega)
    obtain ⟨path, hpath, harrival⟩ := exists_path_of_chain hlists hchain
      (fun m hm h => hshort (m + 1) (by omega) (h.step hp hd he)) hfar (by omega)
    obtain ⟨before, after, hlevel⟩ := List.append_of_mem hpath
    have hmay := mayUse_of_farther hlists hlevel hp he hfar
    have hends : endsAt req (before.foldl visit (level index req pools.length).visited) path p := by
      rw [endsAt, hmay, he]
      rfl
    have hroute := mem_endings.2 ⟨p, (mem_poolsAt hlists).2 ⟨hp, harrival ▸ hd⟩, hends, rfl⟩
    exact List.ne_nil_of_mem (mem_along.2 ⟨before, path, after, hlevel, hroute⟩)

/-! ## The routes that are found -/

/-- Every route of the first levels follows a chain to the wanted denom. -/
theorem chain_of_mem_found (hlists : index.Lists req.minLiquidity market) {k : Nat}
    {r : CandidateRoute} (h : r ∈ found index req k) :
    ∃ pools, Chain market req.denomIn pools req.denomOut ∧ r.poolIds = pools.map (·.id) ∧
      pools.length ≤ k := by
  obtain ⟨j, hj, hr⟩ := mem_found h
  obtain ⟨before, path, after, hlevel, hending⟩ := mem_along.1 hr
  obtain ⟨p, hp, hends, rfl⟩ := mem_endings.1 hending
  have hpath : path ∈ (level index req j).paths := hlevel ▸ List.mem_append_cons_self
  obtain ⟨pools, hchain, hids⟩ := (follows_of_mem_level hlists hpath).chain
  obtain ⟨hmarket, hholds⟩ := (mem_poolsAt hlists).1 hp
  rw [endsAt, Bool.and_eq_true] at hends
  have hlen : pools.length = j := by
    rw [← length_of_mem_level hpath, ← List.length_map (·.id), ← hids, List.length_map]
  refine ⟨pools ++ [p], hchain.snoc hmarket hholds hends.2, ?_, ?_⟩
  · rw [List.map_append, ← hids, CandidateRoute.poolIds, routeThrough, List.map_append]
    rfl
  · rw [List.length_append, List.length_singleton]
    omega

/-- A chain that is short enough makes the search find a route, and the first one is a shortest. -/
theorem found_of_chain (hlists : index.Lists req.minLiquidity market)
    (hne : req.denomIn ≠ req.denomOut) (hroutes : 0 < req.maxRoutes) {pools : List Pool}
    (hchain : Chain market req.denomIn pools req.denomOut) (hlen : pools.length ≤ req.maxPools) :
    ∃ first rest, found index req req.maxPools = first :: rest ∧
      ∀ chain, Chain market req.denomIn chain req.denomOut → first.length ≤ chain.length := by
  classical
  have hex : ∃ n, Within market req.denomIn n req.denomOut := ⟨_, pools, hchain, Nat.le_refl _⟩
  have hmin : ∀ chain, Chain market req.denomIn chain req.denomOut → Nat.find hex ≤ chain.length :=
    fun chain h => Nat.find_le ⟨chain, h, Nat.le_refl _⟩
  have hle : Nat.find hex ≤ req.maxPools := (hmin pools hchain).trans hlen
  obtain ⟨k, hk, hoffered⟩ := offered_of_chain hlists hne (Nat.find_spec hex)
    (fun m hm => Nat.find_min hex hm) hle
  -- no level before offers a route, since none is that close
  have hnone : found index req k = [] := by
    rw [List.eq_nil_iff_forall_not_mem]
    intro r hr
    obtain ⟨chain, h, -, hshort⟩ := chain_of_mem_found hlists hr
    have hleast := hmin chain h
    omega
  have hsome : found index req (k + 1) ≠ [] := by
    rw [found, hnone]
    exact foldl_addRoute_ne_nil hroutes hoffered
  obtain ⟨first, others, hfirst⟩ := List.exists_cons_of_ne_nil hsome
  have hpre : found index req (k + 1) <+: found index req req.maxPools :=
    prefix_found_of_le (hk ▸ hle)
  obtain ⟨rest, hrest⟩ := hpre
  refine ⟨first, others ++ rest, ?_, ?_⟩
  · rw [← hrest, hfirst, List.cons_append]
  · intro chain h
    obtain ⟨own, -, hids, hown⟩ := chain_of_mem_found hlists (hfirst ▸ List.mem_cons_self ..)
    have hlength : first.length = own.length := by
      rw [← CandidateRoute.length_poolIds, hids, List.length_map]
    have hleast := hmin chain h
    omega

end Search

/-! ## Searches in a generation -/

/-- What a search through a market promises: it finds a route exactly if a chain of pools is short
enough, and the first route is a shortest chain. -/
structure ShortestFirst (market : Pool → Prop) (req : SearchRequest) (routes : List CandidateRoute) :
    Prop where
  ne_nil_iff : routes ≠ [] ↔
    ∃ pools, Chain market req.denomIn pools req.denomOut ∧ pools.length ≤ req.maxPools
  first_chain : ∀ first ∈ routes.head?,
    ∃ pools, Chain market req.denomIn pools req.denomOut ∧ first.poolIds = pools.map (·.id)
  first_shortest : ∀ first ∈ routes.head?, ∀ pools, Chain market req.denomIn pools req.denomOut →
    first.length ≤ pools.length

theorem findRoutes_shortestFirst (block : Block) (config : RouterConfig) (whitelist : CodeWhitelist)
    {ctx : Context} (hctx : ∀ n, ctx.isDone .search n = false) {req : SearchRequest}
    (hne : req.denomIn ≠ req.denomOut) (hroutes : 0 < req.maxRoutes) (hpools : 0 < req.maxPools) :
    ∃ routes, findRoutes ctx (Generation.build block config whitelist).index req = .ok routes ∧
      ShortestFirst ((Generation.build block config whitelist).Eligible config req.minLiquidity) req
        routes := by
  have hlists := Generation.lists_build block config whitelist req.minLiquidity
  refine ⟨_, findRoutes_eq_found hctx hne hpools, ?_, ?_, ?_⟩
  · constructor
    · intro hne
      obtain ⟨r, hr⟩ := List.exists_mem_of_ne_nil _ hne
      obtain ⟨pools, hchain, -, hlen⟩ := Search.chain_of_mem_found hlists hr
      exact ⟨pools, hchain, hlen⟩
    · rintro ⟨pools, hchain, hlen⟩
      obtain ⟨first, rest, hfound, -⟩ := Search.found_of_chain hlists hne hroutes hchain hlen
      rw [hfound]
      exact List.cons_ne_nil first rest
  · intro first hfirst
    obtain ⟨pools, hchain, hids, -⟩ :=
      Search.chain_of_mem_found hlists (List.mem_of_mem_head? hfirst)
    exact ⟨pools, hchain, hids⟩
  · intro first hfirst
    obtain ⟨pools, hchain, -, hlen⟩ :=
      Search.chain_of_mem_found hlists (List.mem_of_mem_head? hfirst)
    obtain ⟨first', rest, hfound, hshort⟩ := Search.found_of_chain hlists hne hroutes hchain hlen
    rw [hfound, List.head?_cons, Option.mem_some_iff] at hfirst
    exact hfirst ▸ hshort

/-- Two ways from `a` to `d`, and a direct pool with little liquidity. -/
def detour : Block :=
  ⟨1, [linkPool 1 "a" "d" 5, linkPool 2 "a" "b" 100, linkPool 3 "b" "c" 100, linkPool 4 "c" "d" 100,
    linkPool 5 "b" "d" 50], []⟩

def detourRequest : SearchRequest := ⟨"a", "d", 3, 4, 10⟩

theorem detour_shortestFirst :
    findRoutes .background (Generation.build detour {} {}).index detourRequest
        = .ok [⟨[⟨2, "b"⟩, ⟨5, "d"⟩]⟩, ⟨[⟨2, "b"⟩, ⟨3, "c"⟩, ⟨4, "d"⟩]⟩] ∧
      ∀ pools, Chain ((Generation.build detour {} {}).Eligible {} 10) "a" pools "d" →
        2 ≤ pools.length := by
  have hctx : ∀ n, Context.background.isDone .search n = false := fun _ => rfl
  have hne : detourRequest.denomIn ≠ detourRequest.denomOut := by decide
  have hrun : findRoutes .background (Generation.build detour {} {}).index detourRequest
      = .ok [⟨[⟨2, "b"⟩, ⟨5, "d"⟩]⟩, ⟨[⟨2, "b"⟩, ⟨3, "c"⟩, ⟨4, "d"⟩]⟩] := by
    rw [findRoutes_eq_found hctx hne (by decide)]
    rfl
  obtain ⟨routes, hroutes, hshortest⟩ :=
    findRoutes_shortestFirst detour {} {} hctx hne (by decide) (by decide)
  rw [hrun, Except.ok.injEq] at hroutes
  subst hroutes
  exact ⟨hrun, hshortest.first_shortest _ rfl⟩

end SwapRouting
