import SwapRouting.Proofs.Search.Levels

/-! A higher liquidity threshold and the number of routes.

A higher threshold leaves the first pools of every list, but it does not always leave fewer routes: a
pool that drops out may have been the start of a short path, and the pools of that path were visited
when longer ones came to them. Visited pools do not matter on the first three levels, since a pool that
only starts a path is not used again; and on the fourth they matter alike for both thresholds, since
paths that start at a remaining pool come first. So routes of at most four pools never grow more. -/
namespace SwapRouting
set_option autoImplicit false

/-- The same search under another threshold. -/
def SearchRequest.above (req : SearchRequest) (threshold : Nat) : SearchRequest :=
  { req with minLiquidity := threshold }

namespace Search

variable {index : LiquidityIndex} {req : SearchRequest} {market : Pool → Prop}

/-! ## The pools of the first levels -/

/-- No path goes through a pool that holds the wanted denom. -/
theorem away_of_mem_level (hlists : index.Lists req.minLiquidity market) {k : Nat} {path : Path}
    (hpath : path ∈ (level index req k).paths) {p : Pool} (hp : market p)
    (hid : p.id ∈ path.map (·.pool)) : p.holds req.denomOut = false := by
  induction k generalizing path with
  | zero =>
    rw [List.mem_singleton.1 hpath] at hid
    cases hid
  | succ k ih =>
    obtain ⟨before, q, after, hlevel, hmem⟩ := mem_along.1 hpath
    obtain ⟨-, pool, hpool, hpass, d, -, -, -, rfl⟩ := mem_branches hmem
    rw [List.map_append, List.mem_append] at hid
    rcases hid with hid | hid
    · exact ih (hlevel ▸ List.mem_append_cons_self) hid
    · have hsame : p = pool :=
        hlists.unique p pool hp ((mem_poolsAt hlists).1 hpool).1 (List.mem_singleton.1 hid)
      rw [hsame]
      exact (passesThrough_iff.1 hpass).2

/-- The first pool of a path holds the denom that the search starts from. -/
theorem holds_of_mem_level (hlists : index.Lists req.minLiquidity market) {k : Nat} {h : Hop}
    {rest : Path} (hpath : h :: rest ∈ (level index req k).paths) {p : Pool} (hp : market p)
    (hid : p.id = h.pool) : p.holds req.denomIn := by
  induction k generalizing rest with
  | zero => cases List.mem_singleton.1 hpath
  | succ k ih =>
    obtain ⟨before, q, after, hlevel, hmem⟩ := mem_along.1 hpath
    obtain ⟨-, pool, hpool, -, d, -, -, -, heq⟩ := mem_branches hmem
    cases q with
    | nil =>
      rw [List.nil_append, List.cons.injEq] at heq
      obtain ⟨hmarket, hholds⟩ := (mem_poolsAt hlists).1 hpool
      have hsame : p = pool := hlists.unique p pool hp hmarket (by rw [hid, heq.1])
      rw [hsame]
      exact hholds
    | cons x xs =>
      rw [List.cons_append, List.cons.injEq] at heq
      exact ih (heq.1 ▸ hlevel ▸ List.mem_append_cons_self)

/-- Which routes a level offers does not depend on visited pools: none of them holds the wanted denom. -/
theorem offered_eq_flatMap (hlists : index.Lists req.minLiquidity market) (k : Nat) :
    offered index req k = (level index req k).paths.flatMap (endings index req []) := by
  refine along_eq_flatMap ?_
  intro before path after hlevel
  unfold endings
  congr 1
  refine List.filter_congr ?_
  intro p hp
  have hmarket := ((mem_poolsAt hlists).1 hp).1
  cases hout : p.holds req.denomOut with
  | false => simp [endsAt, hout]
  | true =>
    have hnew : p.id ∉ before.foldl visit (level index req k).visited := by
      intro hvisited
      obtain ⟨j, -, q, hq, hid⟩ := exists_path_of_visited hlevel hvisited
      rw [away_of_mem_level hlists hq hmarket hid] at hout
      cases hout
    simp [endsAt, mayUse, hnew]

/-- How the first two levels go on does not depend on visited pools: what was visited by then starts a
path, and no path returns to where it started. -/
theorem level_succ_eq_flatMap (hlists : index.Lists req.minLiquidity market) {k : Nat} (hk : k ≤ 1) :
    (level index req (k + 1)).paths
      = (level index req k).paths.flatMap (branches index req []) := by
  refine along_eq_flatMap ?_
  intro before path after hlevel
  have hpath : path ∈ (level index req k).paths := hlevel ▸ List.mem_append_cons_self
  unfold branches
  congr 2
  refine List.filter_congr ?_
  intro p hp
  by_cases hvisited : p.id ∈ before.foldl visit (level index req k).visited
  · obtain ⟨j, hj, q, hq, hid⟩ := exists_path_of_visited hlevel hvisited
    have hlen := length_of_mem_level hq
    obtain ⟨h, rfl⟩ : ∃ h, q = [h] := by
      refine List.length_eq_one_iff.1 ?_
      have hpos : 0 < q.length := List.length_pos_of_mem (List.mem_map.1 hid).choose_spec.1
      omega
    have hin : p.holds req.denomIn :=
      holds_of_mem_level hlists hq ((mem_poolsAt hlists).1 hp).1 (List.mem_singleton.1 hid)
    have hne : path.isEmpty = false := by
      have hlength := length_of_mem_level hpath
      rw [List.length_singleton] at hlen
      rw [List.isEmpty_eq_false_iff, ← List.length_pos_iff]
      omega
    simp [passesThrough, mayUse, hin, hne]
  · simp [passesThrough, mayUse, hvisited]

/-! ## Two thresholds -/

/-- Pools that pass a threshold among those that pass the one of a search: the first ones of every list. -/
structure Narrows (index : LiquidityIndex) (req : SearchRequest) (threshold : Nat) (ok : Nat → Bool) :
    Prop where
  pools : ∀ path, poolsAt index (req.above threshold) path
    = (poolsAt index req path).filter fun p => ok p.id
  leading : ∀ path, Leading (fun p => ok p.id) (poolsAt index req path)

def okPath (ok : Nat → Bool) (path : Path) : Bool := path.all fun h => ok h.pool

/-- Whether the first pool of a path passes. -/
def okFirst (ok : Nat → Bool) (path : Path) : Bool := path.head?.all fun h => ok h.pool

variable {threshold : Nat} {ok : Nat → Bool}

theorem okFirst_of_okPath {path : Path} (h : okPath ok path) : okFirst ok path := by
  cases path with
  | nil => rfl
  | cons x rest => exact List.all_eq_true.1 h x (List.mem_cons_self ..)

theorem okPath_concat (path : Path) (x : Hop) :
    okPath ok (path ++ [x]) = (okPath ok path && ok x.pool) := by
  simp [okPath]

theorem okFirst_concat {path : Path} (h : path ≠ []) (x : Hop) :
    okFirst ok (path ++ [x]) = okFirst ok path := by
  rw [okFirst, List.head?_append_of_ne_nil path h]
  rfl

theorem filter_extensions (path : Path) (pool : Pool) :
    (extensions index req path pool).filter (okPath ok)
      = if okPath ok path && ok pool.id then extensions index req path pool else [] := by
  have hall : ∀ q ∈ extensions index req path pool, okPath ok q = (okPath ok path && ok pool.id) := by
    intro q hq
    obtain ⟨d, -, rfl⟩ := List.mem_map.1 hq
    exact okPath_concat path ⟨pool.id, d⟩
  split
  · next h => exact List.filter_eq_self.2 fun q hq => (hall q hq).trans h
  · next h => exact List.filter_eq_nil_iff.2 fun q hq hok => h ((hall q hq).symm.trans hok)

theorem filter_flatMap_eq {α β : Type} {p : α → Bool} {q : β → Bool} {f g : α → List β} {l : List α}
    (h : ∀ a ∈ l, (f a).filter q = if p a then g a else []) :
    (l.flatMap f).filter q = (l.filter p).flatMap g := by
  induction l with
  | nil => rfl
  | cons a r ih =>
    have hrest := ih fun x hx => h x (List.mem_cons_of_mem _ hx)
    rw [List.flatMap_cons, List.filter_append, h a (List.mem_cons_self ..), hrest]
    by_cases ha : p a = true
    · rw [if_pos ha, List.filter_cons_of_pos ha, List.flatMap_cons]
    · rw [if_neg ha, List.filter_cons_of_neg ha, List.nil_append]

theorem filter_branches (hnarrows : Narrows index req threshold ok) (visited : List Nat) (path : Path) :
    (branches index req visited path).filter (okPath ok)
      = if okPath ok path then branches index (req.above threshold) visited path else [] := by
  have hsame : branches index (req.above threshold) visited path
      = if req.maxPools ≤ path.length + 1 then []
        else (((poolsAt index req path).filter fun p => ok p.id).filter
          (passesThrough req visited path)).flatMap (extensions index req path) := by
    rw [← hnarrows.pools path]
    rfl
  rw [hsame, branches]
  split
  · rw [ite_self]
    rfl
  · rw [filter_flatMap_eq fun pool _ => filter_extensions path pool, List.filter_filter,
      List.filter_filter]
    split
    · next hok => simp only [hok, Bool.true_and, Bool.and_comm]
    · next hok => simp [hok]

/-- On the first levels the higher threshold leaves the paths all of whose pools pass. -/
theorem level_above (hlists : index.Lists req.minLiquidity market) {market' : Pool → Prop}
    (hlists' : index.Lists threshold market') (hnarrows : Narrows index req threshold ok) {k : Nat}
    (hk : k ≤ 2) :
    (level index (req.above threshold) k).paths = (level index req k).paths.filter (okPath ok) := by
  induction k with
  | zero => rfl
  | succ k ih =>
    have hprev := ih (by omega)
    have hnext : (level index (req.above threshold) (k + 1)).paths
        = (level index (req.above threshold) k).paths.flatMap
          (branches index (req.above threshold) []) := level_succ_eq_flatMap hlists' (by omega)
    rw [level_succ_eq_flatMap hlists (by omega), hnext, hprev]
    exact (filter_flatMap_eq fun path _ => filter_branches hnarrows [] path).symm

theorem leading_branches_nil (hnarrows : Narrows index req threshold ok) :
    Leading (okFirst ok) (branches index req [] []) := by
  rw [branches]
  split
  · exact List.Pairwise.nil
  · have htaken : Leading (fun p : Pool => ok p.id)
        ((poolsAt index req []).filter (passesThrough req [] [])) :=
      List.Pairwise.sublist List.filter_sublist (hnarrows.leading [])
    refine htaken.flatMap ?_
    intro pool _ q hq
    obtain ⟨d, -, rfl⟩ := List.mem_map.1 hq
    rfl

/-- On the first levels the paths that start at a pool that passes come first. -/
theorem leading_level (hlists : index.Lists req.minLiquidity market)
    (hnarrows : Narrows index req threshold ok) {k : Nat} (hk : k ≤ 2) :
    Leading (okFirst ok) (level index req k).paths := by
  match k with
  | 0 => exact List.pairwise_singleton _ _
  | 1 =>
    rw [level_succ_eq_flatMap hlists (by omega)]
    have hone := leading_branches_nil hnarrows
    rwa [← List.append_nil (branches index req [] [])] at hone
  | 2 =>
    rw [level_succ_eq_flatMap hlists (by omega)]
    refine (leading_level hlists hnarrows (k := 1) (by omega)).flatMap ?_
    intro path hpath q hq
    obtain ⟨-, pool, -, -, d, -, -, -, rfl⟩ := mem_branches hq
    refine okFirst_concat ?_ ⟨pool.id, d⟩
    rintro rfl
    cases length_of_mem_level hpath

/-- A pool that the fourth level of the narrow search goes on through was not visited in the wide one:
the paths visited before start at pools that pass, so one through this pool would be in both searches. -/
theorem not_visited_above (hlists : index.Lists req.minLiquidity market)
    (hnarrows : Narrows index req threshold ok) {before after : List Path} {path : Path}
    (hlevel : (level index req 2).paths = before ++ path :: after) (hpath : okPath ok path)
    {p : Pool} (hp : market p) (hok : ok p.id) (haway : p.holds req.denomIn = false)
    (hnew : ∀ q ∈ before, okPath ok q → p.id ∉ q.map (·.pool)) :
    p.id ∉ before.foldl visit (level index req 2).visited := by
  intro hvisited
  have hstart : ∀ {j : Nat} {h : Hop} {rest : Path}, h :: rest ∈ (level index req j).paths →
      p.id ≠ h.pool := by
    intro j h rest hmem hid
    rw [holds_of_mem_level hlists hmem hp hid] at haway
    cases haway
  rcases mem_foldl_visit.1 hvisited with hvisited | ⟨q, hq, hid⟩
  · -- before this level, only the pools that start a path were visited
    obtain ⟨j, hj, q, hq, hid⟩ := exists_path_of_mem_visited hvisited
    have hlen := length_of_mem_level hq
    match q with
    | [] => cases hid
    | [h] => exact hstart hq (List.mem_singleton.1 hid)
    | _ :: _ :: _ =>
      rw [List.length_cons, List.length_cons] at hlen
      omega
  · have hmem : q ∈ (level index req 2).paths := by
      rw [hlevel]
      exact List.mem_append_left _ hq
    have hfirst : okFirst ok q := by
      have hleading := leading_level hlists hnarrows (k := 2) (Nat.le_refl 2)
      rw [hlevel] at hleading
      exact (List.pairwise_append.1 hleading).2.2 q hq path (List.mem_cons_self ..)
        (okFirst_of_okPath hpath)
    match q, length_of_mem_level hmem with
    | [h, h'], _ =>
      have hid' : p.id = h'.pool := by
        rcases List.mem_cons.1 hid with hid | hid
        · exact absurd hid (hstart hmem)
        · exact List.mem_singleton.1 hid
      have hokFirst : ok h.pool = true := hfirst
      refine hnew [h, h'] hq ?_ hid
      simp [okPath, hokFirst, ← hid', hok]

theorem mem_third_level_of_above (hlists : index.Lists req.minLiquidity market)
    {market' : Pool → Prop} (hlists' : index.Lists threshold market')
    (hnarrows : Narrows index req threshold ok) {path : Path}
    (hpath : path ∈ (level index (req.above threshold) 3).paths) :
    path ∈ (level index req 3).paths := by
  obtain ⟨before', q, after', hlevel', hmem⟩ := mem_along.1 hpath
  obtain ⟨hlen, pool, hpool, hpass, d, hd, hne, hknown, rfl⟩ := mem_branches hmem
  obtain ⟨hmay, haway⟩ := passesThrough_iff.1 hpass
  obtain ⟨hfresh, hunused, hleaves⟩ := mayUse_iff.1 hmay
  -- the path that goes on is in the wide search, too, with more paths before it
  have hfilter := level_above hlists hlists' hnarrows (Nat.le_refl 2)
  rw [hlevel'] at hfilter
  obtain ⟨kept, rest, hsplit, hkept, hrest⟩ := List.filter_eq_append_iff.1 hfilter.symm
  obtain ⟨dropped, after, rfl, hdropped, hq, -⟩ := List.filter_eq_cons_iff.1 hrest
  have hlevel : (level index req 2).paths = (kept ++ dropped) ++ q :: after := by
    rw [hsplit, List.append_assoc]
  have hnonempty : q ≠ [] := by
    have hmem : q ∈ (level index req 2).paths := hlevel ▸ List.mem_append_cons_self
    rw [← List.length_pos_iff, length_of_mem_level hmem]
    exact Nat.two_pos
  rw [hnarrows.pools q] at hpool
  obtain ⟨hlisted, hok⟩ := List.mem_filter.1 hpool
  have hunvisited : pool.id ∉ (kept ++ dropped).foldl visit (level index req 2).visited := by
    refine not_visited_above hlists hnarrows hlevel hq ((mem_poolsAt hlists).1 hlisted).1 hok
      (hleaves hnonempty) ?_
    intro x hx hokx hid
    rcases List.mem_append.1 hx with hx | hx
    · have hbefore : x ∈ before' := hkept ▸ List.mem_filter.2 ⟨hx, hokx⟩
      exact hfresh (mem_foldl_visit.2 (Or.inr ⟨x, hbefore, hid⟩))
    · exact hdropped x hx hokx
  have hpasses := passesThrough_iff.2 ⟨mayUse_iff.2 ⟨hunvisited, hunused, hleaves⟩, haway⟩
  exact mem_along.2 ⟨kept ++ dropped, q, after, hlevel,
    branches_mem hlen hlisted hpasses hd hne hknown⟩

theorem mem_level_of_above (hlists : index.Lists req.minLiquidity market) {market' : Pool → Prop}
    (hlists' : index.Lists threshold market') (hnarrows : Narrows index req threshold ok) {k : Nat}
    (hk : k ≤ 3) {path : Path} (hpath : path ∈ (level index (req.above threshold) k).paths) :
    path ∈ (level index req k).paths := by
  by_cases hsmall : k ≤ 2
  · rw [level_above hlists hlists' hnarrows hsmall] at hpath
    exact List.mem_of_mem_filter hpath
  · obtain rfl : k = 3 := by omega
    exact mem_third_level_of_above hlists hlists' hnarrows hpath

/-! ## Counting the routes -/

theorem mem_offered_of_above (hlists : index.Lists req.minLiquidity market) {market' : Pool → Prop}
    (hlists' : index.Lists threshold market') (hnarrows : Narrows index req threshold ok) {k : Nat}
    (hk : k ≤ 3) {r : CandidateRoute} (hr : r ∈ offered index (req.above threshold) k) :
    r ∈ offered index req k := by
  have hoffered : offered index (req.above threshold) k
      = (level index (req.above threshold) k).paths.flatMap
        (endings index (req.above threshold) []) := offered_eq_flatMap hlists' k
  rw [hoffered, List.mem_flatMap] at hr
  rw [offered_eq_flatMap hlists, List.mem_flatMap]
  obtain ⟨path, hpath, hending⟩ := hr
  obtain ⟨pool, hpool, hends, hroute⟩ := mem_endings.1 hending
  rw [hnarrows.pools path] at hpool
  exact ⟨path, mem_level_of_above hlists hlists' hnarrows hk hpath,
    mem_endings.2 ⟨pool, List.mem_of_mem_filter hpool, hends, hroute⟩⟩

/-- Among routes of at most four pools a higher threshold never finds more. -/
theorem length_found_above (hlists : index.Lists req.minLiquidity market) {market' : Pool → Prop}
    (hlists' : index.Lists threshold market') (hnarrows : Narrows index req threshold ok) {k : Nat}
    (hk : k ≤ 4) :
    (found index (req.above threshold) k).length ≤ (found index req k).length := by
  have hnarrow : Collected (req.above threshold).maxRoutes (found index (req.above threshold) k) :=
    collected_found k
  by_cases hroom : (found index req k).length < req.maxRoutes
  · -- each set of pools is found once, so the wide search has one route for every narrow one
    have hsub : poolSets (found index (req.above threshold) k) ⊆ poolSets (found index req k) := by
      intro s hs
      obtain ⟨r, hr, rfl⟩ := List.mem_map.1 hs
      obtain ⟨j, hj, hoffered⟩ := mem_found hr
      exact mem_poolSets_found hj
        (mem_offered_of_above hlists hlists' hnarrows (by omega) hoffered) hroom
    have hle := hnarrow.nodup.length_le_of_subset hsub
    rw [poolSets, poolSets, List.length_map, List.length_map] at hle
    exact hle
  · exact hnarrow.length_le.trans (Nat.not_lt.1 hroom)

end Search

/-! ## Thresholds in a generation -/

namespace Generation

theorem narrows_build (block : Block) (config : RouterConfig) (whitelist : CodeWhitelist)
    {req : SearchRequest} {threshold : Nat} (hle : req.minLiquidity ≤ threshold) :
    Search.Narrows (build block config whitelist).index req threshold fun id =>
      ((build block config whitelist).snapshot.get? id).any (config.passes threshold) := by
  have hok : ∀ path, ∀ p ∈ Search.poolsAt (build block config whitelist).index req path,
      ((build block config whitelist).snapshot.get? p.id).any (config.passes threshold)
        = config.passes threshold p := by
    intro path p hp
    have hlists := lists_build block config whitelist req.minLiquidity
    have hmem := ((Search.mem_poolsAt hlists).1 hp).1.mem
    rw [get?_id_of_mem_values block config whitelist hmem, Option.any_some]
  refine ⟨?_, ?_⟩
  · intro path
    rw [List.filter_congr (hok path)]
    exact (listed_of_le block config whitelist hle (Search.arrival req path)).1
  · intro path
    have hleading := (listed_of_le block config whitelist hle (Search.arrival req path)).2
    refine List.Pairwise.imp_of_mem ?_ hleading
    intro a b ha hb himp
    simp only [hok path a ha, hok path b hb]
    exact himp

end Generation

theorem findRoutes_length_le (block : Block) (config : RouterConfig) (whitelist : CodeWhitelist)
    {ctx : Context} (hctx : ∀ n, ctx.isDone .search n = false) {req : SearchRequest}
    (hne : req.denomIn ≠ req.denomOut) (hpools : 0 < req.maxPools) (hfour : req.maxPools ≤ 4)
    {threshold : Nat} (hle : req.minLiquidity ≤ threshold) :
    ∃ wide narrow,
      findRoutes ctx (Generation.build block config whitelist).index req = .ok wide ∧
      findRoutes ctx (Generation.build block config whitelist).index (req.above threshold)
        = .ok narrow ∧
      narrow.length ≤ wide.length := by
  refine ⟨_, _, findRoutes_eq_found hctx hne hpools, findRoutes_eq_found hctx hne hpools, ?_⟩
  exact Search.length_found_above (Generation.lists_build block config whitelist req.minLiquidity)
    (Generation.lists_build block config whitelist threshold)
    (Generation.narrows_build block config whitelist hle) hfour

/-- Two long ways from `in` to `out`, and a pool with little liquidity that joins them half way. -/
def shortcut : Block :=
  ⟨1, [linkPool 1 "in" "b" 1000, linkPool 2 "in" "b" 1000, linkPool 3 "b" "c" 1000,
    linkPool 4 "c" "e" 1000, linkPool 5 "e" "d" 1000, linkPool 6 "d" "out" 1000,
    linkPool 7 "in" "e" 1], []⟩

def shortcutRequest (maxPools : Nat) : SearchRequest := ⟨"in", "out", 20, maxPools, 0⟩

theorem shortcut_length_le :
    findRoutes .background (Generation.build shortcut {} {}).index (shortcutRequest 4)
        = .ok [⟨[⟨7, "e"⟩, ⟨5, "d"⟩, ⟨6, "out"⟩]⟩] ∧
      ∃ narrow, findRoutes .background (Generation.build shortcut {} {}).index
          ((shortcutRequest 4).above 100) = .ok narrow ∧ narrow.length ≤ 1 := by
  have hctx : ∀ n, Context.background.isDone .search n = false := fun _ => rfl
  have hne : (shortcutRequest 4).denomIn ≠ (shortcutRequest 4).denomOut := by decide
  have hle : (shortcutRequest 4).minLiquidity ≤ 100 := by decide
  have hrun : findRoutes .background (Generation.build shortcut {} {}).index (shortcutRequest 4)
      = .ok [⟨[⟨7, "e"⟩, ⟨5, "d"⟩, ⟨6, "out"⟩]⟩] := by
    rw [findRoutes_eq_found hctx hne (by decide)]
    rfl
  obtain ⟨wide, narrow, hwide, hnarrow, hless⟩ :=
    findRoutes_length_le shortcut {} {} hctx hne (by decide) (by decide) hle
  rw [hrun, Except.ok.injEq] at hwide
  subst hwide
  exact ⟨hrun, narrow, hnarrow, hless⟩

/-- With five pools to a route it is different: the short path through pool 7 goes through pool 5 first,
and without it two long paths do. -/
theorem shortcut_hides_routes :
    findRoutes .background (Generation.build shortcut {} {}).index (shortcutRequest 5)
        = .ok [⟨[⟨7, "e"⟩, ⟨5, "d"⟩, ⟨6, "out"⟩]⟩] ∧
      findRoutes .background (Generation.build shortcut {} {}).index
          ((shortcutRequest 5).above 100)
        = .ok [⟨[⟨1, "b"⟩, ⟨3, "c"⟩, ⟨4, "e"⟩, ⟨5, "d"⟩, ⟨6, "out"⟩]⟩,
            ⟨[⟨2, "b"⟩, ⟨3, "c"⟩, ⟨4, "e"⟩, ⟨5, "d"⟩, ⟨6, "out"⟩]⟩] := by
  constructor
  · rw [findRoutes_eq_found (fun _ => rfl) (by decide) (by decide)]
    rfl
  · rw [findRoutes_eq_found (fun _ => rfl) (by decide) (by decide)]
    rfl

end SwapRouting
