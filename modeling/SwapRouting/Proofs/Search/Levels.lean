import SwapRouting.Proofs.Generation
import SwapRouting.Proofs.Search
import SwapRouting.Proofs.Search.Collect

/-! What a search finds, level by level.

The search stops in the middle of a level as soon as it has enough routes. What it has then is what it
would have if it went on, since a full list of routes takes no more. So the levels can be described
without regard to the routes: the paths of a level with the pools visited before it give the paths of
the next level, and every level offers the routes that its paths end as. A search that is never
cancelled finds the routes that are offered up to the last level, each set of pools once. -/
namespace SwapRouting
set_option autoImplicit false

namespace Search

/-! ## Expanding one path -/

section
variable (index : LiquidityIndex) (req : SearchRequest)

def poolsAt (path : Path) : List Pool := index.listed (arrival req path) req.minLiquidity

/-- The route that a path becomes at a pool that holds the wanted denom. -/
def routeThrough (path : Path) (pool : Pool) : CandidateRoute := ⟨path ++ [⟨pool.id, req.denomOut⟩]⟩

/-- Whether a path becomes a route at a pool. -/
def endsAt (visited : List Nat) (path : Path) (pool : Pool) : Bool :=
  mayUse req visited path pool && pool.holds req.denomOut

/-- Whether a path goes on through a pool. -/
def passesThrough (visited : List Nat) (path : Path) (pool : Pool) : Bool :=
  mayUse req visited path pool && !pool.holds req.denomOut

def endings (visited : List Nat) (path : Path) : List CandidateRoute :=
  ((poolsAt index req path).filter (endsAt req visited path)).map (routeThrough req path)

def branches (visited : List Nat) (path : Path) : List Path :=
  if req.maxPools ≤ path.length + 1 then []
  else ((poolsAt index req path).filter (passesThrough req visited path)).flatMap
    (extensions index req path)

/-- The visited pools after a path was expanded. -/
def visit (visited : List Nat) (path : Path) : List Nat := addNew (path.map (·.pool)) visited

/-- What the paths of a level give, each with the pools visited before it. -/
def along {β : Type} (f : List Nat → Path → List β) (visited : List Nat) : List Path → List β
  | [] => []
  | path :: rest => f visited path ++ along f (visit visited path) rest

variable {index req}

theorem grow_routes (visited : List Nat) (path : Path) (g : Growth) (pool : Pool) :
    (grow index req visited path g pool).routes
      = if endsAt req visited path pool then
          addRoute req.maxRoutes g.routes (routeThrough req path pool)
        else g.routes := by
  unfold grow addRoute routeThrough endsAt
  by_cases hfull : req.maxRoutes ≤ g.routes.length
  · simp [hfull]
  · cases hmay : mayUse req visited path pool with
    | false => simp [hfull]
    | true =>
      cases hout : pool.holds req.denomOut with
      | true =>
        simp only [hfull, if_false, Bool.not_true, Bool.false_eq_true, if_true, Bool.and_self]
        split
        · rfl
        · rfl
      | false =>
        simp only [hfull, if_false, Bool.not_true, Bool.false_eq_true, Bool.and_false]
        split
        · rfl
        · rfl

theorem foldl_grow_routes (visited : List Nat) (path : Path) (g : Growth) (pools : List Pool) :
    (pools.foldl (grow index req visited path) g).routes
      = ((pools.filter (endsAt req visited path)).map (routeThrough req path)).foldl
          (addRoute req.maxRoutes) g.routes := by
  induction pools generalizing g with
  | nil => rfl
  | cons p rest ih =>
    rw [List.foldl_cons, ih, grow_routes]
    by_cases h : endsAt req visited path p = true
    · rw [if_pos h, List.filter_cons_of_pos h, List.map_cons, List.foldl_cons]
    · rw [if_neg h, List.filter_cons_of_neg h]

theorem grow_paths {visited : List Nat} {path : Path} {g : Growth} {pool : Pool}
    (hroom : g.routes.length < req.maxRoutes) :
    (grow index req visited path g pool).paths
      = (if req.maxPools ≤ path.length + 1 then []
        else if passesThrough req visited path pool then
          (extensions index req path pool).reverse
        else []) ++ g.paths := by
  unfold grow passesThrough
  rw [if_neg (by omega)]
  cases hmay : mayUse req visited path pool with
  | false => simp
  | true =>
    cases hout : pool.holds req.denomOut with
    | true =>
      simp only [Bool.not_true, Bool.false_eq_true, if_false, if_true, Bool.and_false, ite_self,
        List.nil_append]
      split
      · rfl
      · rfl
    | false =>
      simp only [Bool.not_true, Bool.false_eq_true, if_false, Bool.not_false, Bool.and_self, if_true]
      split
      · rfl
      · rfl

theorem foldl_grow_paths {visited : List Nat} {path : Path} {g : Growth} {pools : List Pool}
    (hroom : (pools.foldl (grow index req visited path) g).routes.length < req.maxRoutes) :
    (pools.foldl (grow index req visited path) g).paths
      = (if req.maxPools ≤ path.length + 1 then []
        else (pools.filter (passesThrough req visited path)).flatMap
          (extensions index req path)).reverse ++ g.paths := by
  induction pools generalizing g with
  | nil => simp
  | cons p rest ih =>
    rw [List.foldl_cons] at hroom ⊢
    have hgrown : g.routes.length < req.maxRoutes := by
      have hpre : g.routes <+: (grow index req visited path g p).routes := by
        rw [grow_routes]
        split
        · exact prefix_addRoute
        · exact List.prefix_rfl
      have hrest : (grow index req visited path g p).routes
          <+: (rest.foldl (grow index req visited path) (grow index req visited path g p)).routes := by
        rw [foldl_grow_routes]
        exact prefix_foldl_addRoute
      exact (hpre.trans hrest).length_le.trans_lt hroom
    rw [ih hroom, grow_paths hgrown]
    split
    · rfl
    · by_cases h : passesThrough req visited path p = true
      · rw [if_pos h, List.filter_cons_of_pos h, List.flatMap_cons, List.reverse_append,
          List.append_assoc]
      · rw [if_neg h, List.filter_cons_of_neg h, List.nil_append]

/-! ## Expanding a level -/

/-- A path whose end the index lists; the path without hops changes no visited pools in any case. -/
def Known (index : LiquidityIndex) (req : SearchRequest) (path : Path) : Prop :=
  path = [] ∨ index.knows (arrival req path)

theorem expand_routes (p : Progress) (path : Path) :
    (expand index req p path).routes
      = (endings index req p.visited path).foldl (addRoute req.maxRoutes) p.routes := by
  unfold expand endings poolsAt LiquidityIndex.listed
  cases index.pools? (arrival req path) req.minLiquidity with
  | none => rfl
  | some pools => exact foldl_grow_routes p.visited path ⟨p.routes, p.next⟩ pools

theorem expand_visited {p : Progress} {path : Path} (h : Known index req path) :
    (expand index req p path).visited = visit p.visited path := by
  unfold expand
  split
  · next hnone =>
    rcases h with rfl | hknown
    · rfl
    · rw [LiquidityIndex.pools?, Option.map_eq_none_iff] at hnone
      rw [LiquidityIndex.knows, Dict.contains, hnone] at hknown
      cases hknown
  · rfl

theorem expand_next {p : Progress} {path : Path}
    (hroom : (expand index req p path).routes.length < req.maxRoutes) :
    (expand index req p path).next = (branches index req p.visited path).reverse ++ p.next := by
  unfold expand at hroom ⊢
  unfold branches poolsAt LiquidityIndex.listed
  cases hpools : index.pools? (arrival req path) req.minLiquidity with
  | none => simp
  | some pools =>
    rw [hpools] at hroom
    exact foldl_grow_paths hroom

/-- What a level comes to when it is expanded to its end. -/
structure Swept (index : LiquidityIndex) (req : SearchRequest) (p p' : Progress)
    (level : List Path) : Prop where
  routes : p'.routes
    = (along (endings index req) p.visited level).foldl (addRoute req.maxRoutes) p.routes
  next : p'.routes.length < req.maxRoutes →
    p'.next = (along (branches index req) p.visited level).reverse ++ p.next
  visited : p'.routes.length < req.maxRoutes → p'.visited = level.foldl visit p.visited

theorem sweep_swept {ctx : Context} (hctx : ∀ n, ctx.isDone .search n = false) {p : Progress}
    {level : List Path} (hknown : ∀ path ∈ level, Known index req path) :
    ∃ p', sweep ctx index req p level = .ok p' ∧ Swept index req p p' level := by
  induction level generalizing p with
  | nil => exact ⟨p, rfl, rfl, fun _ => rfl, fun _ => rfl⟩
  | cons path rest ih =>
    rw [sweep]
    split
    · next hfull =>
      -- the level stops here, and what it would still offer is not taken
      have hroutes : p.routes
          = (along (endings index req) p.visited (path :: rest)).foldl (addRoute req.maxRoutes)
              p.routes := (foldl_addRoute_of_full hfull).symm
      exact ⟨p, rfl, hroutes, fun hroom => absurd hroom (Nat.not_lt.2 hfull),
        fun hroom => absurd hroom (Nat.not_lt.2 hfull)⟩
    · rw [if_neg (by simp [hctx])]
      have hvisited := expand_visited (p := p) (hknown path (List.mem_cons_self ..))
      obtain ⟨p', hsweep, hswept⟩ := ih (p := expand index req p path)
        fun x hx => hknown x (List.mem_cons_of_mem _ hx)
      -- routes are never taken back, so with room in the end there was room all along
      have hroom : p'.routes.length < req.maxRoutes →
          (expand index req p path).routes.length < req.maxRoutes := by
        have hpre : (expand index req p path).routes <+: p'.routes := by
          rw [hswept.routes]
          exact prefix_foldl_addRoute
        exact hpre.length_le.trans_lt
      refine ⟨p', hsweep, ?_, ?_, ?_⟩
      · rw [hswept.routes, expand_routes, hvisited, along, List.foldl_append]
      · intro h
        rw [hswept.next h, expand_next (hroom h), hvisited, along, List.reverse_append,
          List.append_assoc]
      · intro h
        rw [hswept.visited h, hvisited, List.foldl_cons]

end

/-! ## The levels of a search -/

/-- The paths of one length, with the pools visited before them. -/
structure Level where
  visited : List Nat
  paths : List Path

section
variable (index : LiquidityIndex) (req : SearchRequest)

/-- The paths of a length that the search expands if it is not stopped before. -/
def level : Nat → Level
  | 0 => ⟨[], [[]]⟩
  | k + 1 => ⟨(level k).paths.foldl visit (level k).visited,
      along (branches index req) (level k).visited (level k).paths⟩

/-- The routes that the paths of a length end as. -/
def offered (k : Nat) : List CandidateRoute :=
  along (endings index req) (level index req k).visited (level index req k).paths

/-- The routes of the first levels. -/
def found : Nat → List CandidateRoute
  | 0 => []
  | k + 1 => (offered index req k).foldl (addRoute req.maxRoutes) (found k)

variable {index req}

theorem mem_poolsAt {market : Pool → Prop} (hlists : index.Lists req.minLiquidity market) {path : Path}
    {p : Pool} : p ∈ poolsAt index req path ↔ market p ∧ p.holds (arrival req path) :=
  hlists.mem_iff (arrival req path) p

/-- A pool that the search may take at the end of a path is one of the market. -/
theorem Offers.mem_market {market : Pool → Prop} (hlists : index.Lists req.minLiquidity market)
    {path : Path} {pool : Pool} (h : Offers index req path pool) :
    market pool ∧ pool.holds (arrival req path) := by
  obtain ⟨pools, hpools, hmem⟩ := h.listed
  refine (mem_poolsAt hlists).1 ?_
  rw [poolsAt, LiquidityIndex.listed, hpools]
  exact hmem

theorem mayUse_iff {visited : List Nat} {path : Path} {p : Pool} :
    mayUse req visited path p ↔ p.id ∉ visited ∧ usesPool path p.id = false ∧
      (path ≠ [] → p.holds req.denomIn = false) := by
  simp only [mayUse, Bool.and_eq_true, Bool.not_eq_true', List.contains_eq_mem,
    decide_eq_false_iff_not, Bool.or_eq_true, List.isEmpty_iff, and_assoc, ne_eq]
  tauto

theorem passesThrough_iff {visited : List Nat} {path : Path} {p : Pool} :
    passesThrough req visited path p ↔ mayUse req visited path p ∧ p.holds req.denomOut = false := by
  rw [passesThrough, Bool.and_eq_true, Bool.not_eq_true']

theorem mem_addNew {ids seen : List Nat} {id : Nat} : id ∈ addNew ids seen ↔ id ∈ seen ∨ id ∈ ids := by
  unfold addNew
  induction ids generalizing seen with
  | nil => simp
  | cons x rest ih =>
    rw [List.foldl_cons, ih, List.mem_cons]
    by_cases hx : seen.contains x = true
    · have hmem : x ∈ seen := by simpa using hx
      rw [if_pos hx]
      constructor
      · rintro (h | h)
        · exact Or.inl h
        · exact Or.inr (Or.inr h)
      · rintro (h | rfl | h)
        · exact Or.inl h
        · exact Or.inl hmem
        · exact Or.inr h
    · rw [if_neg hx, List.mem_cons]
      tauto

theorem mem_foldl_visit {paths : List Path} {visited : List Nat} {id : Nat} :
    id ∈ paths.foldl visit visited ↔
      id ∈ visited ∨ ∃ path ∈ paths, id ∈ path.map (·.pool) := by
  induction paths generalizing visited with
  | nil => simp
  | cons path rest ih =>
    rw [List.foldl_cons, ih, visit, mem_addNew, or_assoc]
    simp only [List.exists_mem_cons_iff]

/-- What the paths of a level give comes from one of its paths, and the pools visited by then are those
of the paths before it. -/
theorem mem_along {β : Type} {f : List Nat → Path → List β} {visited : List Nat} {paths : List Path}
    {x : β} : x ∈ along f visited paths ↔
      ∃ before path after, paths = before ++ path :: after ∧
        x ∈ f (before.foldl visit visited) path := by
  induction paths generalizing visited with
  | nil => simp [along]
  | cons q rest ih =>
    rw [along, List.mem_append, ih]
    constructor
    · rintro (h | ⟨before, path, after, rfl, h⟩)
      · exact ⟨[], q, rest, rfl, h⟩
      · exact ⟨q :: before, path, after, rfl, h⟩
    · rintro ⟨before, path, after, heq, h⟩
      cases before with
      | nil =>
        rw [List.nil_append, List.cons.injEq] at heq
        obtain ⟨rfl, -⟩ := heq
        exact Or.inl h
      | cons y ys =>
        rw [List.cons_append, List.cons.injEq] at heq
        obtain ⟨rfl, rfl⟩ := heq
        exact Or.inr ⟨ys, path, after, rfl, h⟩

theorem along_eq_flatMap {β : Type} {f : List Nat → Path → List β} {g : Path → List β}
    {visited : List Nat} {paths : List Path}
    (h : ∀ before path after, paths = before ++ path :: after →
      f (before.foldl visit visited) path = g path) : along f visited paths = paths.flatMap g := by
  induction paths generalizing visited with
  | nil => rfl
  | cons path rest ih =>
    have hrest : along f (visit visited path) rest = rest.flatMap g :=
      ih fun before q after heq => h (path :: before) q after (by rw [heq, List.cons_append])
    rw [along, hrest, List.flatMap_cons]
    exact congrArg (· ++ rest.flatMap g) (h [] path rest rfl)

theorem mem_branches {visited : List Nat} {path q : Path} (h : q ∈ branches index req visited path) :
    path.length + 1 < req.maxPools ∧ ∃ pool ∈ poolsAt index req path,
      passesThrough req visited path pool ∧ ∃ d ∈ pool.denoms, d ≠ arrival req path ∧
        index.knows d ∧ q = path ++ [⟨pool.id, d⟩] := by
  rw [branches] at h
  split at h
  · cases h
  · next hlen =>
    obtain ⟨pool, hpool, hq⟩ := List.mem_flatMap.1 h
    obtain ⟨hmem, hpass⟩ := List.mem_filter.1 hpool
    obtain ⟨d, hd, rfl⟩ := List.mem_map.1 hq
    obtain ⟨hdenom, hcond⟩ := List.mem_filter.1 hd
    rw [Bool.and_eq_true, bne_iff_ne] at hcond
    exact ⟨Nat.not_le.1 hlen, pool, hmem, hpass, d, hdenom, hcond.1, hcond.2, rfl⟩

theorem branches_mem {visited : List Nat} {path : Path} {pool : Pool} {d : Denom}
    (hlen : path.length + 1 < req.maxPools) (hpool : pool ∈ poolsAt index req path)
    (hpass : passesThrough req visited path pool) (hd : d ∈ pool.denoms)
    (hne : d ≠ arrival req path) (hknown : index.knows d) :
    path ++ [⟨pool.id, d⟩] ∈ branches index req visited path := by
  rw [branches, if_neg (Nat.not_le.2 hlen)]
  refine List.mem_flatMap.2 ⟨pool, List.mem_filter.2 ⟨hpool, hpass⟩, ?_⟩
  refine List.mem_map.2 ⟨d, List.mem_filter.2 ⟨hd, ?_⟩, rfl⟩
  rw [Bool.and_eq_true, bne_iff_ne]
  exact ⟨hne, hknown⟩

theorem mem_endings {visited : List Nat} {path : Path} {r : CandidateRoute} :
    r ∈ endings index req visited path ↔
      ∃ pool ∈ poolsAt index req path, endsAt req visited path pool ∧ routeThrough req path pool = r := by
  rw [endings, List.mem_map]
  constructor
  · rintro ⟨pool, hpool, rfl⟩
    obtain ⟨hmem, hends⟩ := List.mem_filter.1 hpool
    exact ⟨pool, hmem, hends, rfl⟩
  · rintro ⟨pool, hmem, hends, rfl⟩
    exact ⟨pool, List.mem_filter.2 ⟨hmem, hends⟩, rfl⟩

theorem arrival_concat (path : Path) (id : Nat) (d : Denom) :
    arrival req (path ++ [⟨id, d⟩]) = d := by
  rw [arrival, List.getLast?_concat]

theorem length_of_mem_level {k : Nat} {path : Path} (h : path ∈ (level index req k).paths) :
    path.length = k := by
  induction k generalizing path with
  | zero => rw [List.mem_singleton.1 h, List.length_nil]
  | succ k ih =>
    obtain ⟨before, q, after, hlevel, hpath⟩ := mem_along.1 h
    have hq : q ∈ (level index req k).paths := by
      rw [hlevel]
      exact List.mem_append_right _ (List.mem_cons_self ..)
    obtain ⟨-, pool, -, -, d, -, -, -, rfl⟩ := mem_branches hpath
    rw [List.length_append, ih hq, List.length_singleton]

theorem known_of_mem_level {k : Nat} {path : Path} (h : path ∈ (level index req k).paths) :
    Known index req path := by
  cases k with
  | zero => exact Or.inl (List.mem_singleton.1 h)
  | succ k =>
    obtain ⟨before, q, after, -, hpath⟩ := mem_along.1 h
    obtain ⟨-, pool, -, -, d, -, -, hknown, rfl⟩ := mem_branches hpath
    refine Or.inr ?_
    rw [arrival_concat]
    exact hknown

theorem exists_path_of_mem_visited {k id : Nat} (h : id ∈ (level index req k).visited) :
    ∃ j < k, ∃ q ∈ (level index req j).paths, id ∈ q.map (·.pool) := by
  induction k with
  | zero => cases h
  | succ k ih =>
    rcases mem_foldl_visit.1 h with h | ⟨q, hq, hid⟩
    · obtain ⟨j, hj, hpath⟩ := ih h
      exact ⟨j, hj.trans (Nat.lt_succ_self k), hpath⟩
    · exact ⟨k, Nat.lt_succ_self k, q, hq, hid⟩

/-- The pools visited before a path of a level are those of paths that are not longer. -/
theorem exists_path_of_visited {k : Nat} {before after : List Path} {path : Path}
    (hlevel : (level index req k).paths = before ++ path :: after) {id : Nat}
    (h : id ∈ before.foldl visit (level index req k).visited) :
    ∃ j ≤ k, ∃ q ∈ (level index req j).paths, id ∈ q.map (·.pool) := by
  rcases mem_foldl_visit.1 h with h | ⟨q, hq, hid⟩
  · obtain ⟨j, hj, hpath⟩ := exists_path_of_mem_visited h
    exact ⟨j, hj.le, hpath⟩
  · refine ⟨k, Nat.le_refl k, q, ?_, hid⟩
    rw [hlevel]
    exact List.mem_append_left _ hq

/-- No path but the first one has as many hops as a route may have at most. -/
theorem level_of_maxPools_le {k : Nat} (hpos : 0 < k) (h : req.maxPools ≤ k) :
    (level index req k).paths = [] := by
  rw [List.eq_nil_iff_forall_not_mem]
  intro path hpath
  obtain ⟨j, rfl⟩ : ∃ j, k = j + 1 := ⟨k - 1, by omega⟩
  have hlen := length_of_mem_level hpath
  obtain ⟨before, q, after, -, hmem⟩ := mem_along.1 hpath
  obtain ⟨hlt, pool, -, -, d, -, -, -, rfl⟩ := mem_branches hmem
  rw [List.length_append, List.length_singleton] at hlen
  omega

/-! ## What was found -/

theorem prefix_found (k : Nat) : found index req k <+: found index req (k + 1) :=
  prefix_foldl_addRoute

theorem prefix_found_of_le {j k : Nat} (h : j ≤ k) : found index req j <+: found index req k := by
  induction h with
  | refl => exact List.prefix_rfl
  | step _ ih => exact ih.trans (prefix_found _)

theorem collected_found (k : Nat) : Collected req.maxRoutes (found index req k) := by
  induction k with
  | zero => exact ⟨Nat.zero_le _, List.nodup_nil⟩
  | succ k ih => exact ih.foldl_addRoute

theorem mem_found {k : Nat} {r : CandidateRoute} (h : r ∈ found index req k) :
    ∃ j < k, r ∈ offered index req j := by
  induction k with
  | zero => cases h
  | succ k ih =>
    rcases mem_foldl_addRoute h with h | h
    · obtain ⟨j, hj, hr⟩ := ih h
      exact ⟨j, Nat.lt_succ_of_lt hj, hr⟩
    · exact ⟨k, Nat.lt_succ_self k, h⟩

theorem mem_poolSets_found {j k : Nat} (hj : j < k) {r : CandidateRoute}
    (hr : r ∈ offered index req j) (hroom : (found index req k).length < req.maxRoutes) :
    r.poolIds.toFinset ∈ poolSets (found index req k) := by
  have hpre : found index req (j + 1) <+: found index req k := prefix_found_of_le hj
  have hmem : r.poolIds.toFinset ∈ poolSets (found index req (j + 1)) :=
    mem_poolSets_foldl_addRoute hr (hpre.length_le.trans_lt hroom)
  exact (hpre.map _).subset hmem

theorem found_of_full {k n : Nat} (h : req.maxRoutes ≤ (found index req k).length) :
    found index req (k + n) = found index req k := by
  induction n with
  | zero => rfl
  | succ n ih =>
    rw [← Nat.add_assoc, found, ih]
    exact foldl_addRoute_of_full h

/-! ## The whole search -/

theorem explore_nil {ctx : Context} {p : Progress} :
    explore ctx index req p [] = .ok p.routes := by
  have hsweep : sweep ctx index req { p with next := [] } [] = .ok { p with next := [] } := rfl
  rw [explore_of_sweep_eq_ok hsweep]
  split
  · rfl
  · rw [if_pos rfl]

/-- From any level on, the search finds what the levels up to an empty one offer. -/
theorem explore_level {ctx : Context} (hctx : ∀ n, ctx.isDone .search n = false) {k n : Nat}
    (hempty : (level index req (k + n)).paths = []) {p : Progress}
    (hroutes : p.routes = found index req k) (hvisited : p.visited = (level index req k).visited) :
    explore ctx index req p (level index req k).paths = .ok (found index req (k + n)) := by
  induction n generalizing k p with
  | zero =>
    rw [Nat.add_zero] at hempty
    rw [hempty, explore_nil, hroutes]
    rfl
  | succ n ih =>
    have hknown : ∀ path ∈ (level index req k).paths, Known index req path :=
      fun path hpath => known_of_mem_level hpath
    obtain ⟨p', hsweep, hswept⟩ := sweep_swept hctx (p := { p with next := [] }) hknown
    have hfound : p'.routes = found index req (k + 1) := by
      rw [hswept.routes, hroutes, hvisited]
      rfl
    have hindex : k + 1 + n = k + (n + 1) := by omega
    rw [explore_of_sweep_eq_ok hsweep]
    split
    · next hfull =>
      rw [hfound] at hfull ⊢
      rw [← hindex, found_of_full hfull]
    · next hfull =>
      have hroom : p'.routes.length < req.maxRoutes := Nat.not_le.1 hfull
      have hnext : p'.next.reverse = (level index req (k + 1)).paths := by
        rw [hswept.next hroom, hvisited, List.append_nil, List.reverse_reverse]
        rfl
      have hseen : p'.visited = (level index req (k + 1)).visited := by
        rw [hswept.visited hroom, hvisited]
        rfl
      have hrest := ih (hindex ▸ hempty) hfound hseen
      rw [hindex] at hrest
      split
      · next hnil =>
        rw [hnil, List.reverse_nil] at hnext
        rw [← hnext, explore_nil] at hrest
        exact hrest
      · rw [hnext]
        exact hrest

end

end Search

/-- A search that is never cancelled finds what its levels offer, the first one in any case. -/
theorem findRoutes_eq_found_of_le {ctx : Context} (hctx : ∀ n, ctx.isDone .search n = false)
    {index : LiquidityIndex} {req : SearchRequest} (hne : req.denomIn ≠ req.denomOut) {k : Nat}
    (hpos : 0 < k) (hle : req.maxPools ≤ k) :
    findRoutes ctx index req = .ok (Search.found index req k) := by
  have hempty : (Search.level index req (0 + k)).paths = [] := by
    rw [Nat.zero_add]
    exact Search.level_of_maxPools_le hpos hle
  have hexplore := Search.explore_level hctx hempty (p := Search.Progress.start) rfl rfl
  rw [Nat.zero_add] at hexplore
  rw [findRoutes, if_neg hne]
  exact hexplore

theorem findRoutes_eq_found {ctx : Context} (hctx : ∀ n, ctx.isDone .search n = false)
    {index : LiquidityIndex} {req : SearchRequest} (hne : req.denomIn ≠ req.denomOut)
    (hpools : 0 < req.maxPools) :
    findRoutes ctx index req = .ok (Search.found index req req.maxPools) :=
  findRoutes_eq_found_of_le hctx hne hpools (Nat.le_refl _)

/-- A pool of two denoms; a search does not look at balances. -/
def linkPool (id : Nat) (a b : Denom) (cap : Nat) : Pool :=
  PoolRecord.constantProduct ⟨id, .constantProduct, [a, b], [], Decimal.zero, cap⟩

end SwapRouting
