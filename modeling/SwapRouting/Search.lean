import SwapRouting.Candidate
import SwapRouting.Error
import SwapRouting.LiquidityIndex

/-! The search for candidate routes: breadth first over the liquidity index.

Paths are expanded level by level, so shorter routes come before longer ones. A path ends as a route
at a pool that holds the wanted denom. No path repeats a pool, goes through a pool whose paths were
expanded before, or returns through a pool that holds the denom it started from. Two routes over the
same set of pools count as one.

Every path uses a pool of the index that its parent does not use, so the pools still free grow fewer
from level to level and the search ends whatever its limits are. -/
namespace SwapRouting
set_option autoImplicit false

/-- What is searched for, and within which limits. -/
structure SearchRequest where
  denomIn : Denom
  denomOut : Denom
  maxRoutes : Nat
  maxPools : Nat
  /-- The liquidity that an ordinary pool has to reach. -/
  minLiquidity : Nat
deriving DecidableEq, Repr, Inhabited

namespace Search

/-- Hops from the starting denom. -/
abbrev Path := List Hop

def usesPool (path : Path) (id : Nat) : Bool := path.any fun h => h.pool == id

/-- The denom a path has arrived at. -/
def arrival (req : SearchRequest) (path : Path) : Denom :=
  match path.getLast? with
  | some h => h.denomOut
  | none => req.denomIn

/-- Whether two lists hold the same identifiers. -/
def sameSet (a b : List Nat) : Bool := a.all b.contains && b.all a.contains

/-- The routes found so far, and the paths of the next level, last one first. -/
structure Growth where
  routes : List CandidateRoute
  paths : List Path
deriving DecidableEq, Repr

/-- Whether the path may go on through the pool. -/
def mayUse (req : SearchRequest) (visited : List Nat) (path : Path) (pool : Pool) : Bool :=
  !visited.contains pool.id && !usesPool path pool.id && (path.isEmpty || !pool.holds req.denomIn)

/-- The path continued through the pool by each of its other denoms that the index knows. -/
def extensions (index : LiquidityIndex) (req : SearchRequest) (path : Path) (pool : Pool) :
    List Path :=
  (pool.denoms.filter fun d => d != arrival req path && index.knows d).map fun d =>
    path ++ [⟨pool.id, d⟩]

/-- Takes one more pool for a path into account. -/
def grow (index : LiquidityIndex) (req : SearchRequest) (visited : List Nat) (path : Path)
    (g : Growth) (pool : Pool) : Growth :=
  if req.maxRoutes ≤ g.routes.length then g
  else if !mayUse req visited path pool then g
  else if pool.holds req.denomOut then
    let route : CandidateRoute := ⟨path ++ [⟨pool.id, req.denomOut⟩]⟩
    if g.routes.any fun r => sameSet r.poolIds route.poolIds then g
    else { g with routes := g.routes ++ [route] }
  else if req.maxPools ≤ path.length + 1 then g
  else { g with paths := (extensions index req path pool).reverse ++ g.paths }

/-- A level under way. -/
structure Progress where
  routes : List CandidateRoute
  /-- Pools whose paths were expanded. -/
  visited : List Nat
  /-- The paths of the next level, last one first. -/
  next : List Path
  /-- How many paths were expanded. -/
  steps : Nat
deriving DecidableEq, Repr

/-- Adds the identifiers that are not in the list yet. -/
def addNew (ids seen : List Nat) : List Nat :=
  ids.foldl (fun s id => if s.contains id then s else id :: s) seen

/-- Expands one path through all pools at its end. -/
def expand (index : LiquidityIndex) (req : SearchRequest) (p : Progress) (path : Path) : Progress :=
  match index.pools? (arrival req path) req.minLiquidity with
  | none => { p with steps := p.steps + 1 }
  | some pools =>
    let g := pools.foldl (grow index req p.visited path) ⟨p.routes, p.next⟩
    { routes := g.routes
      visited := addNew (path.map (·.pool)) p.visited
      next := g.paths
      steps := p.steps + 1 }

/-- Expands the paths of one level in turn, until there are enough routes. -/
def sweep (ctx : Context) (index : LiquidityIndex) (req : SearchRequest) (p : Progress) :
    List Path → Except RouterError Progress
  | [] => .ok p
  | path :: rest =>
    if req.maxRoutes ≤ p.routes.length then .ok p
    else if ctx.isDone .search p.steps then .error (.cancelled .search)
    else sweep ctx index req (expand index req p path) rest

/-! ## Why the search ends -/

/-- The pools of the index that a path does not use. -/
def free (index : LiquidityIndex) (path : Path) : List Pool :=
  index.allPools.filter fun p => !usesPool path p.id

/-- One more than the most pools that any of these paths leaves free. -/
def height (index : LiquidityIndex) : List Path → Nat
  | [] => 0
  | path :: rest => max ((free index path).length + 1) (height index rest)

/-- The pools that hold a denom are among all pools of the index, each as often. -/
theorem pools?_sublist_allPools {index : LiquidityIndex} {denom : Denom} {n : Nat}
    {pools : List Pool} (h : index.pools? denom n = some pools) : pools.Sublist index.allPools := by
  simp only [LiquidityIndex.pools?, Option.map_eq_some_iff] at h
  obtain ⟨e, he, rfl⟩ := h
  simp only [Dict.get?, Option.map_eq_some_iff] at he
  obtain ⟨entry, hentry, rfl⟩ := he
  have hvalue : entry.2 ∈ index.byDenom.values :=
    List.mem_map.2 ⟨entry, List.mem_of_find?_eq_some hentry, rfl⟩
  have hall : (entry.2.sorted ++ entry.2.tiered.flatten).Sublist index.allPools := by
    rw [LiquidityIndex.allPools, List.flatMap_def]
    exact List.sublist_flatten_of_mem (List.mem_map_of_mem hvalue)
  refine List.Sublist.trans ?_ hall
  split
  · next i _ =>
    cases ht : entry.2.tiered[i]? with
    | none => exact List.nil_sublist _
    | some tier =>
      exact (List.sublist_flatten_of_mem (List.mem_of_getElem? ht)).trans
        (List.sublist_append_right ..)
  · exact List.filter_sublist.trans (List.sublist_append_left ..)

theorem mem_allPools_of_pools? {index : LiquidityIndex} {denom : Denom} {n : Nat}
    {pools : List Pool} (h : index.pools? denom n = some pools) {p : Pool} (hp : p ∈ pools) :
    p ∈ index.allPools :=
  (pools?_sublist_allPools h).subset hp

theorem free_append_lt {index : LiquidityIndex} {path : Path} {pool : Pool} {d : Denom}
    (hpool : pool ∈ index.allPools) (hfresh : usesPool path pool.id = false) :
    (free index (path ++ [⟨pool.id, d⟩])).length < (free index path).length := by
  have hsplit : free index (path ++ [⟨pool.id, d⟩])
      = (free index path).filter fun p => !(pool.id == p.id) := by
    simp [free, usesPool, List.filter_filter, Bool.and_comm]
  rw [hsplit, List.length_filter_lt_length_iff_exists]
  exact ⟨pool, by simp [free, hpool, hfresh], by simp⟩

theorem lt_height_of_mem {index : LiquidityIndex} {level : List Path} {path : Path}
    (h : path ∈ level) : (free index path).length < height index level := by
  induction level with
  | nil => simp at h
  | cons q rest ih =>
    rw [height]
    rcases List.mem_cons.1 h with rfl | h
    · omega
    · have hrest := ih h
      omega

theorem height_le {index : LiquidityIndex} {level : List Path} {n : Nat}
    (h : ∀ path ∈ level, (free index path).length < n) : height index level ≤ n := by
  induction level with
  | nil => simp [height]
  | cons q rest ih =>
    rw [height]
    have hq := h q (List.mem_cons_self ..)
    have hr := ih fun path hp => h path (List.mem_cons_of_mem _ hp)
    omega

/-- A pool adds to the paths of the next level only paths with fewer free pools. -/
theorem mem_paths_grow {index : LiquidityIndex} {req : SearchRequest} {visited : List Nat}
    {path : Path} {g : Growth} {pool : Pool} (hpool : pool ∈ index.allPools) {q : Path}
    (hq : q ∈ (grow index req visited path g pool).paths) :
    q ∈ g.paths ∨ (free index q).length < (free index path).length := by
  unfold grow at hq
  split at hq
  · exact .inl hq
  · split at hq
    · exact .inl hq
    · next huse =>
      split at hq
      · simp only at hq
        split at hq
        · exact .inl hq
        · exact .inl hq
      · split at hq
        · exact .inl hq
        · rcases List.mem_append.1 hq with h | h
          · obtain ⟨d, _, rfl⟩ := List.mem_map.1 (List.mem_reverse.1 h)
            refine .inr (free_append_lt hpool ?_)
            simp only [mayUse, Bool.and_eq_true, Bool.not_eq_false, Bool.not_eq_true'] at huse
            simp_all
          · exact .inl h

theorem mem_paths_foldl_grow {index : LiquidityIndex} {req : SearchRequest} {visited : List Nat}
    {path : Path} {pools : List Pool} {g : Growth} (hpools : ∀ p ∈ pools, p ∈ index.allPools)
    {q : Path} (hq : q ∈ (pools.foldl (grow index req visited path) g).paths) :
    q ∈ g.paths ∨ (free index q).length < (free index path).length := by
  induction pools generalizing g with
  | nil => exact .inl hq
  | cons p r ih =>
    rcases ih (fun x hx => hpools x (List.mem_cons_of_mem _ hx)) hq with h | h
    · exact mem_paths_grow (hpools p (List.mem_cons_self ..)) h
    · exact .inr h

theorem mem_next_expand {index : LiquidityIndex} {req : SearchRequest} {p : Progress} {path q : Path}
    (hq : q ∈ (expand index req p path).next) :
    q ∈ p.next ∨ (free index q).length < (free index path).length := by
  unfold expand at hq
  split at hq
  · exact .inl hq
  · next hpools =>
    exact mem_paths_foldl_grow (fun _ hx => mem_allPools_of_pools? hpools hx) hq

theorem mem_next_sweep {ctx : Context} {index : LiquidityIndex} {req : SearchRequest}
    {p p' : Progress} {level : List Path} (h : sweep ctx index req p level = .ok p') {q : Path}
    (hq : q ∈ p'.next) :
    q ∈ p.next ∨ ∃ path ∈ level, (free index q).length < (free index path).length := by
  induction level generalizing p with
  | nil =>
    rw [sweep, Except.ok.injEq] at h
    exact .inl (h ▸ hq)
  | cons path rest ih =>
    rw [sweep] at h
    split at h
    · rw [Except.ok.injEq] at h
      exact .inl (h ▸ hq)
    · split at h
      · simp at h
      · rcases ih h with hn | ⟨x, hx, hlt⟩
        · rcases mem_next_expand hn with h' | h'
          · exact .inl h'
          · exact .inr ⟨path, List.mem_cons_self .., h'⟩
        · exact .inr ⟨x, List.mem_cons_of_mem _ hx, hlt⟩

theorem height_next_lt {ctx : Context} {index : LiquidityIndex} {req : SearchRequest}
    {p p' : Progress} {level : List Path}
    (h : sweep ctx index req { p with next := [] } level = .ok p') (hne : p'.next ≠ []) :
    height index p'.next.reverse < height index level := by
  have hless : ∀ q ∈ p'.next.reverse, (free index q).length < height index level - 1 := by
    intro q hq
    rcases mem_next_sweep h (List.mem_reverse.1 hq) with hn | ⟨path, hpath, hlt⟩
    · simp at hn
    · have hpathLt := @lt_height_of_mem index _ _ hpath
      omega
  have hle := height_le hless
  obtain ⟨q, hq⟩ := List.exists_mem_of_ne_nil _ hne
  have hqLt := hless q (List.mem_reverse.2 hq)
  omega

/-- Expands a level, then the next one, until there are enough routes or no paths left. -/
def explore (ctx : Context) (index : LiquidityIndex) (req : SearchRequest) (p : Progress)
    (level : List Path) : Except RouterError (List CandidateRoute) :=
  match _h : sweep ctx index req { p with next := [] } level with
  | .error e => .error e
  | .ok p' =>
    if req.maxRoutes ≤ p'.routes.length then .ok p'.routes
    else if _hne : p'.next = [] then .ok p'.routes
    else explore ctx index req p' p'.next.reverse
termination_by height index level
decreasing_by exact height_next_lt _h _hne

/-- The search before its first step. -/
def Progress.start : Progress where
  routes := []
  visited := []
  next := []
  steps := 0

end Search

/-- Up to `maxRoutes` routes, shorter ones first. A space without a route gives an empty list. -/
def findRoutes (ctx : Context) (index : LiquidityIndex) (req : SearchRequest) :
    Except RouterError (List CandidateRoute) :=
  if req.denomIn = req.denomOut then .error (.equalDenoms req.denomIn)
  else Search.explore ctx index req Search.Progress.start [[]]

end SwapRouting
