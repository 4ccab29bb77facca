import Mathlib.Algebra.Group.Action.Defs
import Mathlib.Algebra.Order.BigOperators.Group.Finset
import Mathlib.Algebra.Order.BigOperators.Group.List
import Mathlib.Algebra.Ring.GeomSum
import SwapRouting.Proofs.Search.Shortest

/-! The search as a loop over one queue, and why the loop ends.

A turn of the loop takes the first path of the queue and puts its extensions behind the others. The queue
may grow by that, and a search without limits may see a denom many times. But an extension leaves fewer
pools of the index free than the path it extends, and there are at most as many extensions as the pools of
the index have denoms. So the paths that can still come from a waiting path are bounded by a geometric
sum, and this bound, summed over the queue, falls with every turn.

The search gives what this loop finds, or the error of a caller who leaves before its last turn. -/
namespace SwapRouting
set_option autoImplicit false

namespace Search

/-- The paths that wait for their turn, with what was found and visited before. -/
structure Queue where
  routes : List CandidateRoute
  visited : List Nat
  waiting : List Path

namespace Queue

/-- The path without hops waits alone. -/
def start : Queue where
  routes := []
  visited := []
  waiting := [[]]

/-- No path waits, or there are enough routes. -/
def Done (req : SearchRequest) (q : Queue) : Prop :=
  q.waiting = [] ∨ req.maxRoutes ≤ q.routes.length

/-- Expands the first path; its extensions wait behind the other paths. -/
def turn (index : LiquidityIndex) (req : SearchRequest) (q : Queue) : Queue :=
  match q.waiting with
  | [] => q
  | path :: rest =>
    if req.maxRoutes ≤ q.routes.length then q
    else
      let p := expand index req ⟨q.routes, q.visited, [], 0⟩ path
      ⟨p.routes, p.visited, rest ++ p.next.reverse⟩

/-- The loop ends after so many turns, and not earlier. -/
structure Stops (index : LiquidityIndex) (req : SearchRequest) (q : Queue) (turns : Nat) : Prop where
  done : ((turn index req)^[turns] q).Done req
  undone : ∀ k < turns, ¬ ((turn index req)^[k] q).Done req

end Queue

section
variable {index : LiquidityIndex} {req : SearchRequest} {q : Queue}

theorem exists_waiting (h : ¬ q.Done req) :
    ∃ path rest, q.waiting = path :: rest ∧ ¬ req.maxRoutes ≤ q.routes.length := by
  rw [Queue.Done, not_or] at h
  obtain ⟨path, rest, hwaiting⟩ := List.exists_cons_of_ne_nil h.1
  exact ⟨path, rest, hwaiting, h.2⟩

theorem Queue.Stops.eq_zero {turns : Nat} (h : q.Stops index req turns) (hdone : q.Done req) :
    turns = 0 := by
  by_contra hpos
  exact h.undone 0 (Nat.pos_of_ne_zero hpos) hdone

theorem stops_zero (h : q.Done req) : q.Stops index req 0 :=
  ⟨h, fun k hk => absurd hk (Nat.not_lt_zero k)⟩

theorem Queue.Stops.succ {turns : Nat} (hundone : ¬ q.Done req)
    (h : (q.turn index req).Stops index req turns) : q.Stops index req (turns + 1) := by
  refine ⟨h.done, fun k hk => ?_⟩
  cases k with
  | zero => exact hundone
  | succ k => exact h.undone k (Nat.lt_of_succ_lt_succ hk)

theorem Queue.Stops.exists_succ {turns : Nat} (h : q.Stops index req turns) (hundone : ¬ q.Done req) :
    ∃ n, turns = n + 1 ∧ (q.turn index req).Stops index req n := by
  cases turns with
  | zero => exact absurd h.done hundone
  | succ n => exact ⟨n, rfl, h.done, fun k hk => h.undone (k + 1) (Nat.succ_lt_succ hk)⟩

end

/-! ## Paths that wait -/

/-- A path through different pools of the index. -/
structure Simple (index : LiquidityIndex) (path : Path) : Prop where
  nodup : (path.map Hop.pool).Nodup
  drawn : ∀ id ∈ path.map Hop.pool, ∃ pool ∈ index.allPools, pool.id = id

section
variable {index : LiquidityIndex} {req : SearchRequest} {q : Queue}

theorem keeps_simple (index : LiquidityIndex) (req : SearchRequest) :
    Keeps index req (Simple index) fun _ => True := by
  refine ⟨⟨List.nodup_nil, List.forall_mem_nil _⟩, ?_, fun _ _ _ _ _ => trivial⟩
  intro path pool d hpath hoffers hout hlen hd hback hknown
  refine ⟨(keeps_nodup index req).extend path pool d hpath.nodup hoffers hout hlen hd hback hknown, ?_⟩
  intro id hid
  rw [List.map_append, List.mem_append] at hid
  rcases hid with hid | hid
  · exact hpath.drawn id hid
  · obtain ⟨pools, hpools, hpool⟩ := hoffers.listed
    exact ⟨pool, mem_allPools_of_pools? hpools hpool, (List.mem_singleton.1 hid).symm⟩

theorem simple_turn (h : ∀ path ∈ q.waiting, Simple index path) :
    ∀ path ∈ (q.turn index req).waiting, Simple index path := by
  rw [Queue.turn]
  split
  · exact h
  · next path rest hwaiting =>
    split
    · exact h
    · obtain ⟨hpath, hrest⟩ := List.forall_mem_cons.1 (hwaiting ▸ h)
      have hgrown := expand_has (p := ⟨q.routes, q.visited, [], 0⟩) (keeps_simple index req) hpath
        ⟨fun _ _ => trivial, List.forall_mem_nil _⟩
      intro x hx
      rcases List.mem_append.1 hx with hx | hx
      · exact hrest x hx
      · exact hgrown.next x (List.mem_reverse.1 hx)

theorem simple_iterate (index : LiquidityIndex) (req : SearchRequest) (k : Nat) :
    ∀ path ∈ ((Queue.turn index req)^[k] .start).waiting, Simple index path := by
  induction k with
  | zero =>
    intro path hpath
    rw [List.mem_singleton.1 hpath]
    exact (keeps_simple index req).start
  | succ k ih =>
    rw [Function.iterate_succ_apply']
    exact simple_turn ih

end

/-! ## Fewer paths to come -/

/-- How many denoms the pools of the index hold, a denom counted again for every pool. -/
def doors (index : LiquidityIndex) : Nat := (index.allPools.map fun pool => pool.denoms.length).sum

/-- A bound for the paths that begin with a path that leaves so many pools free, itself included. -/
def pathsFrom (doors free : Nat) : Nat := ∑ hops ∈ Finset.range (free + 1), doors ^ hops

theorem pathsFrom_succ (doors free : Nat) :
    pathsFrom doors (free + 1) = doors * pathsFrom doors free + 1 :=
  geom_sum_succ

theorem pathsFrom_pos (doors free : Nat) : 0 < pathsFrom doors free := by
  cases free with
  | zero => simp [pathsFrom]
  | succ free => simp [pathsFrom_succ]

theorem pathsFrom_mono (doors : Nat) {few many : Nat} (h : few ≤ many) :
    pathsFrom doors few ≤ pathsFrom doors many :=
  Finset.sum_le_sum_of_subset (Finset.range_mono (Nat.succ_le_succ h))

def descendants (index : LiquidityIndex) (path : Path) : Nat :=
  pathsFrom (doors index) (free index path).length

/-- A bound for the paths that are still to be expanded. -/
def Queue.weight (index : LiquidityIndex) (q : Queue) : Nat :=
  (q.waiting.map (descendants index)).sum

section
variable {index : LiquidityIndex} {req : SearchRequest} {visited : List Nat} {path : Path}

theorem length_paths_grow_le (g : Growth) (pool : Pool) :
    (grow index req visited path g pool).paths.length ≤ pool.denoms.length + g.paths.length := by
  rw [grow]
  split
  · exact Nat.le_add_left ..
  · split
    · exact Nat.le_add_left ..
    · split
      · simp only
        split
        · exact Nat.le_add_left ..
        · exact Nat.le_add_left ..
      · split
        · exact Nat.le_add_left ..
        · rw [List.length_append, List.length_reverse, extensions, List.length_map]
          exact Nat.add_le_add_right (List.length_filter_le ..) _

theorem length_paths_foldl_grow_le (g : Growth) (pools : List Pool) :
    (pools.foldl (grow index req visited path) g).paths.length
      ≤ (pools.map fun pool => pool.denoms.length).sum + g.paths.length := by
  induction pools generalizing g with
  | nil => exact Nat.le_add_left ..
  | cons pool rest ih =>
    have hfirst := @length_paths_grow_le index req visited path g pool
    have hrest := ih (grow index req visited path g pool)
    rw [List.foldl_cons, List.map_cons, List.sum_cons]
    omega

theorem length_next_expand_le (p : Progress) (path : Path) :
    (expand index req p path).next.length ≤ doors index + p.next.length := by
  rw [expand]
  split
  · exact Nat.le_add_left ..
  · next pools hpools =>
    have hsub := (pools?_sublist_allPools hpools).map fun pool => pool.denoms.length
    have hgrown := @length_paths_foldl_grow_le index req p.visited path ⟨p.routes, p.next⟩ pools
    have hdoors : (pools.map fun pool => pool.denoms.length).sum ≤ doors index :=
      hsub.sum_le_sum fun _ _ => Nat.zero_le _
    exact hgrown.trans (Nat.add_le_add_right hdoors _)

theorem sum_descendants_lt {p : Progress} (hnext : p.next = []) :
    ((expand index req p path).next.map (descendants index)).sum < descendants index path := by
  have hless : ∀ x ∈ (expand index req p path).next,
      (free index x).length < (free index path).length := by
    intro x hx
    refine (mem_next_expand hx).resolve_left ?_
    rw [hnext]
    exact List.not_mem_nil
  have hmany := @length_next_expand_le index req p path
  rw [hnext, List.length_nil, Nat.add_zero] at hmany
  rw [descendants]
  -- where no pool is free there is no extension, else there is one for a door at most
  cases hfree : (free index path).length with
  | zero =>
    have hnone : (expand index req p path).next = [] := by
      refine List.eq_nil_iff_forall_not_mem.2 fun x hx => ?_
      exact Nat.not_lt_zero _ (hfree ▸ hless x hx)
    rw [hnone]
    exact pathsFrom_pos ..
  | succ n =>
    have heach : ∀ w ∈ (expand index req p path).next.map (descendants index),
        w ≤ pathsFrom (doors index) n := by
      intro w hw
      obtain ⟨x, hx, rfl⟩ := List.mem_map.1 hw
      exact pathsFrom_mono _ (Nat.lt_succ_iff.1 ((hless x hx).trans_eq hfree))
    have hsum := List.sum_le_card_nsmul _ _ heach
    rw [List.length_map, smul_eq_mul] at hsum
    rw [pathsFrom_succ, Nat.lt_succ_iff]
    exact hsum.trans (Nat.mul_le_mul_right _ hmany)

theorem weight_turn_lt {q : Queue} (h : ¬ q.Done req) :
    (q.turn index req).weight index < q.weight index := by
  obtain ⟨path, rest, hwaiting, hroom⟩ := exists_waiting h
  have hfewer := @sum_descendants_lt index req path ⟨q.routes, q.visited, [], 0⟩ rfl
  rw [Queue.weight, Queue.weight, Queue.turn]
  simp only [hwaiting, if_neg hroom, List.map_append, List.sum_append, List.map_reverse,
    List.sum_reverse, List.map_cons, List.sum_cons]
  omega

/-- The loop ends from any queue on. -/
theorem exists_stops (index : LiquidityIndex) (req : SearchRequest) (q : Queue) :
    ∃ turns ≤ q.weight index, q.Stops index req turns := by
  induction hw : q.weight index using Nat.strong_induction_on generalizing q with
  | _ w ih =>
    by_cases hdone : q.Done req
    · exact ⟨0, Nat.zero_le _, stops_zero hdone⟩
    · have hlt : (q.turn index req).weight index < w := hw ▸ weight_turn_lt hdone
      obtain ⟨turns, hle, hstops⟩ := ih _ hlt (q.turn index req) rfl
      exact ⟨turns + 1, hle.trans_lt hlt, hstops.succ hdone⟩

theorem weight_start (index : LiquidityIndex) :
    Queue.start.weight index = pathsFrom (doors index) index.allPools.length := by
  have hfree : free index [] = index.allPools := by
    rw [free, List.filter_eq_self]
    exact fun _ _ => rfl
  rw [Queue.weight, Queue.start, List.map_singleton, List.sum_singleton, descendants, hfree]

end

/-! ## The levels as a queue -/

/-- The queue in the middle of a level: the rest of the level, then the paths of the next one. -/
def Progress.queue (p : Progress) (level : List Path) : Queue where
  routes := p.routes
  visited := p.visited
  waiting := level ++ p.next.reverse

/-- What the loop gives to a caller who was asked so many times before. -/
def Queue.Gives (ctx : Context) (index : LiquidityIndex) (req : SearchRequest) (asked : Nat) (q : Queue)
    (result : Except RouterError (List CandidateRoute)) : Prop :=
  ∀ turns, q.Stops index req turns →
    result = if ∃ k < turns, ctx.isDone .search (asked + k) = true then .error (.cancelled .search)
      else .ok ((turn index req)^[turns] q).routes

section
variable {ctx : Context} {index : LiquidityIndex} {req : SearchRequest}
variable {asked : Nat} {q : Queue} {result : Except RouterError (List CandidateRoute)}

theorem gives_of_done (h : q.Done req) : q.Gives ctx index req asked (.ok q.routes) := by
  intro turns hstops
  rw [hstops.eq_zero h, if_neg (by simp)]
  rfl

theorem eq_of_gives_of_done (h : q.Done req) (hgives : q.Gives ctx index req asked result) :
    result = .ok q.routes := by
  rw [hgives 0 (stops_zero h), if_neg (by simp)]
  rfl

theorem gives_of_cancelled (h : ¬ q.Done req) (hleft : ctx.isDone .search asked = true) :
    q.Gives ctx index req asked (.error (.cancelled .search)) := by
  intro turns hstops
  obtain ⟨n, rfl, -⟩ := hstops.exists_succ h
  rw [if_pos ⟨0, Nat.succ_pos n, hleft⟩]

theorem gives_of_turn (h : ¬ q.Done req) (hstays : ¬ ctx.isDone .search asked = true)
    (hgives : (q.turn index req).Gives ctx index req (asked + 1) result) :
    q.Gives ctx index req asked result := by
  intro turns hstops
  obtain ⟨n, rfl, hrest⟩ := hstops.exists_succ h
  have hleaves : (∃ k < n + 1, ctx.isDone .search (asked + k) = true)
      ↔ ∃ k < n, ctx.isDone .search (asked + 1 + k) = true := by
    rw [Nat.exists_lt_succ_left, Nat.add_zero, or_iff_right hstays]
    simp only [Nat.add_assoc, Nat.add_comm 1]
  rw [hgives n hrest, Function.iterate_succ_apply]
  simp only [hleaves]

/-- The paths already found stay where they are when a path is expanded. -/
theorem grow_append (visited : List Nat) (path : Path) (routes : List CandidateRoute)
    (new old : List Path) (pool : Pool) :
    grow index req visited path ⟨routes, new ++ old⟩ pool
      = ⟨(grow index req visited path ⟨routes, new⟩ pool).routes,
          (grow index req visited path ⟨routes, new⟩ pool).paths ++ old⟩ := by
  unfold grow
  simp only
  split
  · rfl
  · split
    · rfl
    · split
      · split <;> rfl
      · split
        · rfl
        · rw [List.append_assoc]

theorem foldl_grow_append (visited : List Nat) (path : Path) (g : Growth) (old : List Path)
    (pools : List Pool) :
    pools.foldl (grow index req visited path) ⟨g.routes, g.paths ++ old⟩
      = ⟨(pools.foldl (grow index req visited path) g).routes,
          (pools.foldl (grow index req visited path) g).paths ++ old⟩ := by
  induction pools generalizing g with
  | nil => rfl
  | cons pool rest ih => rw [List.foldl_cons, List.foldl_cons, grow_append, ih]

theorem expand_eq (p : Progress) (path : Path) :
    expand index req p path =
      { expand index req ⟨p.routes, p.visited, [], 0⟩ path with
        next := (expand index req ⟨p.routes, p.visited, [], 0⟩ path).next ++ p.next
        steps := p.steps + 1 } := by
  rw [expand, expand]
  cases index.pools? (arrival req path) req.minLiquidity with
  | none => rfl
  | some pools =>
    have hgrown := @foldl_grow_append index req p.visited path ⟨p.routes, []⟩ p.next pools
    rw [List.nil_append] at hgrown
    simp only [hgrown]

theorem turn_queue {p : Progress} {path : Path} {rest : List Path}
    (hroom : ¬ req.maxRoutes ≤ p.routes.length) :
    (p.queue (path :: rest)).turn index req = (expand index req p path).queue rest := by
  rw [expand_eq p path]
  simp only [Queue.turn, Progress.queue, List.cons_append, if_neg hroom, List.reverse_append,
    List.append_assoc]

theorem not_done_queue {p : Progress} {path : Path} {rest : List Path}
    (hroom : ¬ req.maxRoutes ≤ p.routes.length) : ¬ (p.queue (path :: rest)).Done req :=
  not_or.2 ⟨List.cons_ne_nil _ _, hroom⟩

theorem steps_expand (p : Progress) (path : Path) : (expand index req p path).steps = p.steps + 1 := by
  rw [expand_eq]

theorem gives_of_sweep_eq_error {p : Progress} {level : List Path} {e : RouterError}
    (h : sweep ctx index req p level = .error e) :
    (p.queue level).Gives ctx index req p.steps (.error e) := by
  induction level generalizing p with
  | nil => cases h
  | cons path rest ih =>
    rw [sweep] at h
    split at h
    · cases h
    · next hroom =>
      split at h
      · next hleft =>
        cases h
        exact gives_of_cancelled (not_done_queue hroom) hleft
      · next hstays =>
        refine gives_of_turn (not_done_queue hroom) hstays ?_
        rw [turn_queue hroom, ← steps_expand p path]
        exact ih h

theorem gives_of_sweep_eq_ok {p p' : Progress} {level : List Path}
    (h : sweep ctx index req p level = .ok p')
    (hgives : (p'.queue []).Gives ctx index req p'.steps result) :
    (p.queue level).Gives ctx index req p.steps result := by
  induction level generalizing p with
  | nil =>
    cases h
    exact hgives
  | cons path rest ih =>
    rw [sweep] at h
    split at h
    · next hfull =>
      -- a full search leaves the rest of the level, and the queue stops in front of it
      rw [Except.ok.injEq] at h
      subst h
      rw [eq_of_gives_of_done (.inr hfull) hgives]
      exact gives_of_done (q := p.queue (path :: rest)) (.inr hfull)
    · next hroom =>
      split at h
      · cases h
      · next hstays =>
        refine gives_of_turn (not_done_queue hroom) hstays ?_
        rw [turn_queue hroom, ← steps_expand p path]
        exact ih h

theorem explore_gives (p : Progress) (level : List Path) :
    (({ p with next := [] } : Progress).queue level).Gives ctx index req p.steps
      (explore ctx index req p level) := by
  induction p, level using explore.induct ctx index req with
  | case1 p level e hsweep =>
    rw [explore_of_sweep_eq_error hsweep]
    exact gives_of_sweep_eq_error hsweep
  | case2 p level p' hsweep hfull =>
    rw [explore_of_sweep_eq_ok hsweep, if_pos hfull]
    exact gives_of_sweep_eq_ok hsweep (gives_of_done (q := p'.queue []) (.inr hfull))
  | case3 p level p' hsweep hfull hempty =>
    rw [explore_of_sweep_eq_ok hsweep, if_neg hfull, if_pos hempty]
    have hnone : (p'.queue []).waiting = [] := by rw [Progress.queue, hempty]; rfl
    exact gives_of_sweep_eq_ok hsweep (gives_of_done (q := p'.queue []) (.inl hnone))
  | case4 p level p' hsweep hfull hempty ih =>
    rw [explore_of_sweep_eq_ok hsweep, if_neg hfull, if_neg hempty]
    have hqueue : ({ p' with next := [] } : Progress).queue p'.next.reverse = p'.queue [] := by
      simp only [Progress.queue, List.reverse_nil, List.append_nil, List.nil_append]
    exact gives_of_sweep_eq_ok hsweep (hqueue ▸ ih)

end

end Search

/-- Only simple paths ever wait, so the loop of a search ends under any limits, and there is a bound for
its turns that depends on the index alone. The search gives the routes of its last queue, unless the caller
leaves before the last turn. -/
theorem findRoutes_emptiesQueue (index : LiquidityIndex) {req : SearchRequest}
    (hne : req.denomIn ≠ req.denomOut) :
    ∃ turns ≤ Search.pathsFrom (Search.doors index) index.allPools.length,
      Search.Queue.start.Stops index req turns ∧
      (∀ k, ∀ path ∈ ((Search.Queue.turn index req)^[k] .start).waiting, Search.Simple index path) ∧
      ∀ ctx : Context, findRoutes ctx index req =
        if ∃ k < turns, ctx.isDone .search k = true then .error (.cancelled .search)
        else .ok ((Search.Queue.turn index req)^[turns] .start).routes := by
  obtain ⟨turns, hle, hstops⟩ := Search.exists_stops index req .start
  refine ⟨turns, Search.weight_start index ▸ hle, hstops, Search.simple_iterate index req, ?_⟩
  intro ctx
  have hgives := @Search.explore_gives ctx index req .start [[]]
  rw [findRoutes, if_neg hne, hgives turns hstops]
  simp only [Search.Progress.start, Nat.zero_add]
  rfl

/-- A search that neither limit cuts short. -/
def unlimitedDetour : SearchRequest :=
  { detourRequest with maxRoutes := 2 ^ 64 - 1, maxPools := 2 ^ 64 - 1 }

theorem unlimitedDetour_emptiesQueue :
    unlimitedDetour.denomIn ≠ unlimitedDetour.denomOut ∧
    ∃ turns, Search.Queue.start.Stops (Generation.build detour {} {}).index unlimitedDetour turns ∧
      findRoutes .background (Generation.build detour {} {}).index unlimitedDetour
        = .ok ((Search.Queue.turn (Generation.build detour {} {}).index unlimitedDetour)^[turns]
            .start).routes := by
  have hne : unlimitedDetour.denomIn ≠ unlimitedDetour.denomOut := by decide
  obtain ⟨turns, -, hstops, -, hgives⟩ :=
    findRoutes_emptiesQueue (Generation.build detour {} {}).index hne
  refine ⟨hne, turns, hstops, ?_⟩
  rw [hgives, if_neg (by simp [Context.background])]

end SwapRouting
