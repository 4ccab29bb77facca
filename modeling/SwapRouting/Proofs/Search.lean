import SwapRouting.Proofs.Candidate
import SwapRouting.Search

/-! What every route of a search satisfies.

The search knows its paths and routes only through the pools it takes at the end of a path. So whatever
holds of the path without hops and is kept by taking a pool holds of everything the search finds, for any
limits and however long it goes on. When to stop is all that the caller decides: a search that ends finds
what it finds for any other caller. -/
namespace SwapRouting
set_option autoImplicit false

namespace Search

/-! ## Taking a pool -/

/-- A pool that the search may take at the end of a path. -/
structure Offers (index : LiquidityIndex) (req : SearchRequest) (path : Path) (pool : Pool) :
    Prop where
  listed : ∃ pools, index.pools? (arrival req path) req.minLiquidity = some pools ∧ pool ∈ pools
  fresh : usesPool path pool.id = false
  away : path ≠ [] → pool.holds req.denomIn = false

/-- Properties of paths and of routes that the search keeps. -/
structure Keeps (index : LiquidityIndex) (req : SearchRequest) (onPath : Path → Prop)
    (onRoute : CandidateRoute → Prop) : Prop where
  start : onPath []
  extend : ∀ path pool d, onPath path → Offers index req path pool →
    pool.holds req.denomOut = false → path.length + 1 < req.maxPools → d ∈ pool.denoms →
    d ≠ arrival req path → index.knows d → onPath (path ++ [⟨pool.id, d⟩])
  finish : ∀ path pool, onPath path → Offers index req path pool → pool.holds req.denomOut →
    onRoute ⟨path ++ [⟨pool.id, req.denomOut⟩]⟩

section
variable {index : LiquidityIndex} {req : SearchRequest} {onPath : Path → Prop}
variable {onRoute : CandidateRoute → Prop}

/-- A growth whose paths and routes all have the properties. -/
structure Growth.Has (g : Growth) (onPath : Path → Prop) (onRoute : CandidateRoute → Prop) :
    Prop where
  routes : ∀ r ∈ g.routes, onRoute r
  paths : ∀ p ∈ g.paths, onPath p

theorem offers_of_mayUse {visited : List Nat} {path : Path} {pool : Pool} {pools : List Pool}
    (hpools : index.pools? (arrival req path) req.minLiquidity = some pools) (hpool : pool ∈ pools)
    (h : mayUse req visited path pool = true) : Offers index req path pool := by
  simp only [mayUse, Bool.and_eq_true, Bool.not_eq_true', Bool.or_eq_true, List.isEmpty_iff] at h
  obtain ⟨⟨-, hfresh⟩, haway⟩ := h
  refine ⟨⟨pools, hpools, hpool⟩, hfresh, fun hne => ?_⟩
  rcases haway with h | h
  · exact absurd h hne
  · exact h

theorem grow_has (visited : List Nat) {path : Path} {pool : Pool} {pools : List Pool} {g : Growth}
    (hkeeps : Keeps index req onPath onRoute)
    (hpools : index.pools? (arrival req path) req.minLiquidity = some pools) (hpool : pool ∈ pools)
    (hpath : onPath path) (hg : g.Has onPath onRoute) :
    (grow index req visited path g pool).Has onPath onRoute := by
  rw [grow]
  split
  · exact hg
  · split
    · exact hg
    · next huse =>
      have hmay : mayUse req visited path pool = true := by simpa using huse
      have hoffers := offers_of_mayUse hpools hpool hmay
      split
      · next hout =>
        simp only
        split
        · exact hg
        · refine ⟨?_, hg.paths⟩
          intro r hr
          rcases List.mem_append.1 hr with hr | hr
          · exact hg.routes r hr
          · rw [List.mem_singleton.1 hr]
            exact hkeeps.finish path pool hpath hoffers hout
      · next hout =>
        split
        · exact hg
        · next hlen =>
          refine ⟨hg.routes, ?_⟩
          intro p hp
          rcases List.mem_append.1 hp with hp | hp
          · obtain ⟨d, hd, rfl⟩ := List.mem_map.1 (List.mem_reverse.1 hp)
            obtain ⟨hmem, hcond⟩ := List.mem_filter.1 hd
            rw [Bool.and_eq_true, bne_iff_ne] at hcond
            exact hkeeps.extend path pool d hpath hoffers (by simpa using hout) (by omega) hmem
              hcond.1 hcond.2
          · exact hg.paths p hp

theorem foldl_grow_has (visited : List Nat) {path : Path} {pools taken : List Pool} {g : Growth}
    (hkeeps : Keeps index req onPath onRoute)
    (hpools : index.pools? (arrival req path) req.minLiquidity = some pools)
    (htaken : ∀ p ∈ taken, p ∈ pools) (hpath : onPath path) (hg : g.Has onPath onRoute) :
    (taken.foldl (grow index req visited path) g).Has onPath onRoute := by
  induction taken generalizing g with
  | nil => exact hg
  | cons p rest ih =>
    have hp := grow_has visited hkeeps hpools (htaken p (List.mem_cons_self ..)) hpath hg
    exact ih (fun x hx => htaken x (List.mem_cons_of_mem _ hx)) hp

/-! ## Levels -/

/-- A level under way whose next paths and routes all have the properties. -/
structure Progress.Has (p : Progress) (onPath : Path → Prop) (onRoute : CandidateRoute → Prop) :
    Prop where
  routes : ∀ r ∈ p.routes, onRoute r
  next : ∀ q ∈ p.next, onPath q

theorem expand_has {p : Progress} {path : Path} (hkeeps : Keeps index req onPath onRoute)
    (hpath : onPath path) (hp : p.Has onPath onRoute) :
    (expand index req p path).Has onPath onRoute := by
  rw [expand]
  split
  · exact ⟨hp.routes, hp.next⟩
  · next pools hpools =>
    have hg := foldl_grow_has p.visited (g := ⟨p.routes, p.next⟩) hkeeps hpools
      (fun _ h => h) hpath ⟨hp.routes, hp.next⟩
    exact ⟨hg.routes, hg.paths⟩

theorem sweep_has {ctx : Context} {p p' : Progress} {level : List Path}
    (hkeeps : Keeps index req onPath onRoute) (hlevel : ∀ path ∈ level, onPath path)
    (hp : p.Has onPath onRoute) (h : sweep ctx index req p level = .ok p') :
    p'.Has onPath onRoute := by
  induction level generalizing p with
  | nil =>
    rw [sweep, Except.ok.injEq] at h
    exact h ▸ hp
  | cons path rest ih =>
    rw [sweep] at h
    split at h
    · rw [Except.ok.injEq] at h
      exact h ▸ hp
    · split at h
      · cases h
      · have hnext := expand_has hkeeps (hlevel path (List.mem_cons_self ..)) hp
        exact ih (fun x hx => hlevel x (List.mem_cons_of_mem _ hx)) hnext h

/-- A whole level keeps the properties; it starts without next paths. -/
theorem level_has {ctx : Context} {p p' : Progress} {level : List Path}
    (hkeeps : Keeps index req onPath onRoute) (hlevel : ∀ path ∈ level, onPath path)
    (hp : ∀ r ∈ p.routes, onRoute r)
    (h : sweep ctx index req { p with next := [] } level = .ok p') : p'.Has onPath onRoute := by
  have hstart : ({ p with next := [] } : Progress).Has onPath onRoute := ⟨hp, List.forall_mem_nil _⟩
  exact sweep_has hkeeps hlevel hstart h

theorem explore_of_sweep_eq_ok {ctx : Context} {p p' : Progress} {level : List Path}
    (h : sweep ctx index req { p with next := [] } level = .ok p') :
    explore ctx index req p level
      = if req.maxRoutes ≤ p'.routes.length then .ok p'.routes
        else if p'.next = [] then .ok p'.routes
        else explore ctx index req p' p'.next.reverse := by
  rw [explore]
  split
  · next e he =>
    rw [h] at he
    cases he
  · next q hq =>
    rw [h, Except.ok.injEq] at hq
    subst hq
    rfl

theorem explore_of_sweep_eq_error {ctx : Context} {p : Progress} {level : List Path} {e : RouterError}
    (h : sweep ctx index req { p with next := [] } level = .error e) :
    explore ctx index req p level = .error e := by
  rw [explore]
  split
  · next e' he =>
    rw [h, Except.error.injEq] at he
    rw [he]
  · next q hq =>
    rw [h] at hq
    cases hq

theorem explore_has {ctx : Context} {p : Progress} {level : List Path} {routes : List CandidateRoute}
    (hkeeps : Keeps index req onPath onRoute) (hlevel : ∀ path ∈ level, onPath path)
    (hp : ∀ r ∈ p.routes, onRoute r) (h : explore ctx index req p level = .ok routes) :
    ∀ r ∈ routes, onRoute r := by
  induction p, level using explore.induct ctx index req with
  | case1 p level e he =>
    rw [explore_of_sweep_eq_error he] at h
    cases h
  | case2 p level p' hsweep hfull =>
    have hnext := level_has hkeeps hlevel hp hsweep
    rw [explore_of_sweep_eq_ok hsweep, if_pos hfull, Except.ok.injEq] at h
    exact h ▸ hnext.routes
  | case3 p level p' hsweep hfull hempty =>
    have hnext := level_has hkeeps hlevel hp hsweep
    rw [explore_of_sweep_eq_ok hsweep, if_neg hfull, if_pos hempty, Except.ok.injEq] at h
    exact h ▸ hnext.routes
  | case4 p level p' hsweep hfull hempty ih =>
    have hnext := level_has hkeeps hlevel hp hsweep
    rw [explore_of_sweep_eq_ok hsweep, if_neg hfull, if_neg hempty] at h
    exact ih (fun x hx => hnext.next x (List.mem_reverse.1 hx)) hnext.routes h

end

/-! ## Searches that are not cut short -/

section
variable {ctx : Context} {index : LiquidityIndex} {req : SearchRequest}

theorem sweep_background {p p' : Progress} {level : List Path}
    (h : sweep ctx index req p level = .ok p') :
    sweep .background index req p level = .ok p' := by
  induction level generalizing p with
  | nil => exact h
  | cons path rest ih =>
    rw [sweep] at h ⊢
    split at h
    · next hfull =>
      rw [if_pos hfull]
      exact h
    · next hfull =>
      split at h
      · cases h
      · rw [if_neg hfull]
        exact ih h

theorem explore_background {p : Progress} {level : List Path}
    {routes : List CandidateRoute} (h : explore ctx index req p level = .ok routes) :
    explore .background index req p level = .ok routes := by
  induction p, level using explore.induct ctx index req with
  | case1 p level e he =>
    rw [explore_of_sweep_eq_error he] at h
    cases h
  | case2 p level p' hsweep hfull =>
    rw [explore_of_sweep_eq_ok hsweep, if_pos hfull] at h
    rw [explore_of_sweep_eq_ok (sweep_background hsweep), if_pos hfull]
    exact h
  | case3 p level p' hsweep hfull hempty =>
    rw [explore_of_sweep_eq_ok hsweep, if_neg hfull, if_pos hempty] at h
    rw [explore_of_sweep_eq_ok (sweep_background hsweep), if_neg hfull, if_pos hempty]
    exact h
  | case4 p level p' hsweep hfull hempty ih =>
    rw [explore_of_sweep_eq_ok hsweep, if_neg hfull, if_neg hempty] at h
    rw [explore_of_sweep_eq_ok (sweep_background hsweep), if_neg hfull, if_neg hempty]
    exact ih h

end

/-! ## Paths without repeated pools -/

theorem keeps_nodup (index : LiquidityIndex) (req : SearchRequest) :
    Keeps index req (fun path => (path.map Hop.pool).Nodup)
      (fun r => r.denomOut? = some req.denomOut ∧ r.poolIds.Nodup) := by
  have hadd : ∀ (path : Path) (pool : Pool) (d : Denom), (path.map Hop.pool).Nodup →
      usesPool path pool.id = false →
      (List.map Hop.pool (path ++ [⟨pool.id, d⟩])).Nodup := by
    intro path pool d hpath hfresh
    rw [List.map_append, List.map_cons, List.map_nil]
    refine hpath.append (List.nodup_singleton _) ?_
    intro id hid hone
    rw [List.mem_singleton.1 hone] at hid
    obtain ⟨h, hh, hpool⟩ := List.mem_map.1 hid
    have hused : usesPool path pool.id = true :=
      List.any_eq_true.2 ⟨h, hh, by rw [hpool, beq_self_eq_true]⟩
    rw [hfresh] at hused
    cases hused
  refine ⟨List.nodup_nil, ?_, ?_⟩
  · intro path pool d hpath hoffers _ _ _ _ _
    exact hadd path pool d hpath hoffers.fresh
  · intro path pool hpath hoffers _
    refine ⟨?_, hadd path pool _ hpath hoffers.fresh⟩
    rw [CandidateRoute.denomOut?, List.getLast?_concat]
    rfl

end Search

/-- A search that ends gives what it gives to a caller who never leaves. -/
theorem findRoutes_background {ctx : Context} {index : LiquidityIndex} {req : SearchRequest}
    {routes : List CandidateRoute}
    (h : findRoutes ctx index req = .ok routes) : findRoutes .background index req = .ok routes := by
  rw [findRoutes] at h ⊢
  split at h
  · cases h
  · next hne =>
    rw [if_neg hne]
    exact Search.explore_background h

theorem findRoutes_has {ctx : Context} {index : LiquidityIndex} {req : SearchRequest}
    {onPath : Search.Path → Prop} {onRoute : CandidateRoute → Prop}
    {routes : List CandidateRoute} (hkeeps : Search.Keeps index req onPath onRoute)
    (h : findRoutes ctx index req = .ok routes) :
    req.denomIn ≠ req.denomOut ∧ ∀ r ∈ routes, onRoute r := by
  rw [findRoutes] at h
  split at h
  · cases h
  · next hne =>
    refine ⟨hne, Search.explore_has hkeeps ?_ (by simp [Search.Progress.start]) h⟩
    intro path hpath
    rw [List.mem_singleton.1 hpath]
    exact hkeeps.start

/-- Every route of a search ends in the wanted denom and repeats no pool. -/
theorem findRoutes_leadTo {ctx : Context} {index : LiquidityIndex} {req : SearchRequest}
    {routes : List CandidateRoute} (h : findRoutes ctx index req = .ok routes) :
    req.denomIn ≠ req.denomOut ∧ LeadTo req.denomOut routes :=
  findRoutes_has (Search.keeps_nodup index req) h

end SwapRouting
