import SwapRouting.Proofs.Search.Reversal

/-! What a search gives is worth attaching.

Every path of a search goes through eligible pools, away from the denom it started from and around the
wanted one, and a route is such a path with a pool that holds the wanted denom at its end. Routes are
offered level by level, each level one hop longer than the one before, so they are found in the order of
their length. -/
namespace SwapRouting
set_option autoImplicit false

/-- Whether the snapshot has a pool with this property for each of the identifiers. -/
def PoolSnapshot.Each (s : PoolSnapshot) (prop : Pool → Prop) (ids : List Nat) : Prop :=
  ∀ id ∈ ids, ∃ p, s.get? id = some p ∧ prop p

theorem PoolSnapshot.Each.concat {s : PoolSnapshot} {prop : Pool → Prop} {ids : List Nat}
    (h : s.Each prop ids) {p : Pool} (hget : s.get? p.id = some p) (hp : prop p) :
    s.Each prop (ids ++ [p.id]) := by
  intro id hid
  rcases List.mem_append.1 hid with hid | hid
  · exact h id hid
  · rw [List.mem_singleton.1 hid]
    exact ⟨p, hget, hp⟩

/-- A route of a search through a generation: its pools are eligible and differ from each other, none but
the first holds the denom that goes in, none but the last the wanted one, and whatever the fees are it
attaches to the pools of the generation. -/
structure SoundRoute (g : Generation) (config : RouterConfig) (req : SearchRequest)
    (r : CandidateRoute) : Prop where
  positive : 1 ≤ r.length
  short : r.length ≤ req.maxPools
  nodup : r.poolIds.Nodup
  ends : r.denomOut? = some req.denomOut
  eligible : g.snapshot.Each (g.Eligible config req.minLiquidity) r.poolIds
  leaves : g.snapshot.Each (fun p => p.holds req.denomIn = false) r.poolIds.tail
  arrives : g.snapshot.Each (fun p => p.holds req.denomOut = false) r.poolIds.dropLast
  attaches : ∀ fees fee, ∃ route, (⟨g.snapshot, fees, fee⟩ : Market).attach req.denomIn r = .ok route

/-- What a search through a generation gives: no more routes than there may be, shorter ones first, no two
over one set of pools. -/
structure SoundSearch (g : Generation) (config : RouterConfig) (req : SearchRequest)
    (routes : List CandidateRoute) : Prop where
  few : routes.length ≤ req.maxRoutes
  sorted : routes.Pairwise fun a b => a.length ≤ b.length
  distinct : routes.Pairwise fun a b => ¬ ∀ id, id ∈ a.poolIds ↔ id ∈ b.poolIds
  sound : ∀ r ∈ routes, SoundRoute g config req r

namespace Search

/-! ## Paths and routes -/

/-- A path through pools of a market that has left its first denom and not come to the wanted one. -/
structure UnderWay (s : PoolSnapshot) (market : Pool → Prop) (req : SearchRequest) (path : Path) :
    Prop where
  short : path.length < req.maxPools
  eligible : s.Each market (path.map (·.pool))
  leaves : s.Each (fun p => p.holds req.denomIn = false) (path.map (·.pool)).tail
  around : s.Each (fun p => p.holds req.denomOut = false) (path.map (·.pool))

/-- A route through pools of a market from its first denom to the wanted one. -/
structure Complete (s : PoolSnapshot) (market : Pool → Prop) (req : SearchRequest)
    (r : CandidateRoute) : Prop where
  positive : 1 ≤ r.length
  short : r.length ≤ req.maxPools
  eligible : s.Each market r.poolIds
  leaves : s.Each (fun p => p.holds req.denomIn = false) r.poolIds.tail
  arrives : s.Each (fun p => p.holds req.denomOut = false) r.poolIds.dropLast

section
variable {index : LiquidityIndex} {req : SearchRequest} {market : Pool → Prop} {s : PoolSnapshot}
variable {path : Path} {pool : Pool}

/-- Only the first pool of a path may hold the denom that it starts from. -/
theorem UnderWay.leaves_concat (h : UnderWay s market req path) (hget : s.get? pool.id = some pool)
    (haway : path ≠ [] → pool.holds req.denomIn = false) :
    s.Each (fun p => p.holds req.denomIn = false) (path.map (·.pool) ++ [pool.id]).tail := by
  cases path with
  | nil => exact fun id hid => absurd hid List.not_mem_nil
  | cons x rest => exact h.leaves.concat hget (haway (List.cons_ne_nil x rest))

theorem keeps_complete (hlists : index.Lists req.minLiquidity market)
    (hmarket : ∀ p, market p → s.get? p.id = some p) (hpools : 0 < req.maxPools) :
    Keeps index req (UnderWay s market req) (Complete s market req) where
  start := ⟨hpools, List.forall_mem_nil _, List.forall_mem_nil _, List.forall_mem_nil _⟩
  extend := by
    intro path pool d hpath hoffers haround hlen _ _ _
    have hpool : market pool := (hoffers.mem_market hlists).1
    have hget := hmarket pool hpool
    have hids : (path ++ [(⟨pool.id, d⟩ : Hop)]).map (·.pool) = path.map (·.pool) ++ [pool.id] :=
      List.map_append
    refine ⟨?_, ?_, ?_, ?_⟩
    · rw [List.length_append, List.length_singleton]
      exact hlen
    · rw [hids]
      exact hpath.eligible.concat hget hpool
    · rw [hids]
      exact hpath.leaves_concat hget hoffers.away
    · rw [hids]
      exact hpath.around.concat hget haround
  finish := by
    intro path pool hpath hoffers _
    have hpool : market pool := (hoffers.mem_market hlists).1
    have hget := hmarket pool hpool
    have hids : CandidateRoute.poolIds ⟨path ++ [⟨pool.id, req.denomOut⟩]⟩
        = path.map (·.pool) ++ [pool.id] := List.map_append
    have hlen : CandidateRoute.length ⟨path ++ [⟨pool.id, req.denomOut⟩]⟩ = path.length + 1 :=
      List.length_append
    refine ⟨?_, ?_, ?_, ?_, ?_⟩
    · rw [hlen]
      exact Nat.le_add_left 1 path.length
    · rw [hlen]
      exact hpath.short
    · rw [hids]
      exact hpath.eligible.concat hget hpool
    · rw [hids]
      exact hpath.leaves_concat hget hoffers.away
    · rw [hids, List.dropLast_concat]
      exact hpath.around

end

/-! ## The order of what is found -/

section
variable {index : LiquidityIndex} {req : SearchRequest}

theorem length_of_mem_offered {k : Nat} {r : CandidateRoute} (h : r ∈ offered index req k) :
    r.length = k + 1 := by
  obtain ⟨before, path, after, hlevel, hending⟩ := mem_along.1 h
  obtain ⟨pool, -, -, rfl⟩ := mem_endings.1 hending
  have hpath : path ∈ (level index req k).paths := hlevel ▸ List.mem_append_cons_self
  rw [CandidateRoute.length, routeThrough, List.length_append, length_of_mem_level hpath]
  rfl

theorem length_of_mem_found {k : Nat} {r : CandidateRoute} (h : r ∈ found index req k) :
    r.length ≤ k := by
  obtain ⟨j, hj, hr⟩ := mem_found h
  rw [length_of_mem_offered hr]
  exact hj

theorem sorted_found (k : Nat) :
    (found index req k).Pairwise fun a b => a.length ≤ b.length := by
  induction k with
  | zero => exact List.Pairwise.nil
  | succ k ih =>
    obtain ⟨added, hsub, heq⟩ :=
      exists_sublist_foldl_addRoute req.maxRoutes (found index req k) (offered index req k)
    have hadded : ∀ r ∈ added, r.length = k + 1 := fun r hr => length_of_mem_offered (hsub.subset hr)
    rw [found, heq, List.pairwise_append]
    refine ⟨ih, ?_, ?_⟩
    · refine List.pairwise_of_forall_mem_list ?_
      intro a ha b hb
      exact ((hadded a ha).trans (hadded b hb).symm).le
    · intro a ha b hb
      rw [hadded b hb]
      exact (length_of_mem_found ha).trans (Nat.le_succ k)

theorem Collected.distinct {limit : Nat} {routes : List CandidateRoute} (h : Collected limit routes) :
    routes.Pairwise fun a b => ¬ ∀ id, id ∈ a.poolIds ↔ id ∈ b.poolIds := by
  have hsets : routes.Pairwise fun a b => a.poolIds.toFinset ≠ b.poolIds.toFinset :=
    List.pairwise_map.1 h.nodup
  refine hsets.imp ?_
  intro a b hne hsame
  refine hne (Finset.ext fun id => ?_)
  rw [List.mem_toFinset, List.mem_toFinset]
  exact hsame id

end

end Search

/-- A search between two denoms of a generation ends unless the caller leaves, and if it ends its routes
are sound. -/
theorem findRoutes_sound (block : Block) (config : RouterConfig) (whitelist : CodeWhitelist)
    (ctx : Context) {req : SearchRequest} (hne : req.denomIn ≠ req.denomOut)
    (hpools : 0 < req.maxPools) :
    ((∀ n, ctx.isDone .search n = false) →
      ∃ routes, findRoutes ctx (Generation.build block config whitelist).index req = .ok routes) ∧
    ∀ routes, findRoutes ctx (Generation.build block config whitelist).index req = .ok routes →
      SoundSearch (Generation.build block config whitelist) config req routes := by
  refine ⟨fun hctx => ⟨_, findRoutes_eq_found hctx hne hpools⟩, ?_⟩
  intro routes hfind
  have hbackground := findRoutes_background hfind
  rw [findRoutes_eq_found (fun _ => rfl) hne hpools, Except.ok.injEq] at hbackground
  have hcollected : Search.Collected req.maxRoutes routes := hbackground ▸ Search.collected_found _
  refine ⟨hcollected.length_le, hbackground ▸ Search.sorted_found _, hcollected.distinct, ?_⟩
  intro r hr
  have hlists := Generation.lists_build block config whitelist req.minLiquidity
  have hmarket : ∀ p, (Generation.build block config whitelist).Eligible config req.minLiquidity p →
      (Generation.build block config whitelist).snapshot.get? p.id = some p := fun p hp =>
    Generation.get?_id_of_mem_values block config whitelist hp.mem
  have hcomplete := (findRoutes_has (Search.keeps_complete hlists hmarket hpools) hfind).2 r hr
  obtain ⟨hends, hnodup⟩ := (findRoutes_leadTo hfind).2 r hr
  refine ⟨hcomplete.positive, hcomplete.short, hnodup, hends, hcomplete.eligible, hcomplete.leaves,
    hcomplete.arrives, ?_⟩
  intro fees fee
  have hhops : r.hops ≠ [] := List.length_pos_iff.1 hcomplete.positive
  exact Market.attach_isOk_iff.2 ⟨hhops, tradable_of_findRoutes hfind hr⟩

theorem detour_sound :
    findRoutes .background (Generation.build detour {} {}).index detourRequest
        = .ok [⟨[⟨2, "b"⟩, ⟨5, "d"⟩]⟩, ⟨[⟨2, "b"⟩, ⟨3, "c"⟩, ⟨4, "d"⟩]⟩] ∧
      SoundSearch (Generation.build detour {} {}) {} detourRequest
        [⟨[⟨2, "b"⟩, ⟨5, "d"⟩]⟩, ⟨[⟨2, "b"⟩, ⟨3, "c"⟩, ⟨4, "d"⟩]⟩] := by
  have hne : detourRequest.denomIn ≠ detourRequest.denomOut := by decide
  have hrun : findRoutes .background (Generation.build detour {} {}).index detourRequest
      = .ok [⟨[⟨2, "b"⟩, ⟨5, "d"⟩]⟩, ⟨[⟨2, "b"⟩, ⟨3, "c"⟩, ⟨4, "d"⟩]⟩] := by
    rw [findRoutes_eq_found (fun _ => rfl) hne (by decide)]
    rfl
  exact ⟨hrun, (findRoutes_sound detour {} {} .background hne (by decide)).2 _ hrun⟩

end SwapRouting
