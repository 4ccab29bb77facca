import SwapRouting.Proofs.Search.Shortest

/-! Raising the limits of a search.

Neither limit says which paths are expanded first. The number of routes only says when to stop, and the
number of pools only which paths are the last to be expanded: below it the levels of two searches are the
same, visited pools included. So a search with higher limits finds what one with lower limits does, and
whatever else it finds comes after that. -/
namespace SwapRouting
set_option autoImplicit false

/-- The same search under other limits. -/
def SearchRequest.bounded (req : SearchRequest) (maxRoutes maxPools : Nat) : SearchRequest :=
  { req with maxRoutes := maxRoutes, maxPools := maxPools }

namespace Search

variable {index : LiquidityIndex} {req : SearchRequest} {few many short long : Nat}

theorem along_congr {β : Type} {f g : List Nat → Path → List β} {visited : List Nat}
    {paths : List Path} (h : ∀ path ∈ paths, ∀ seen, f seen path = g seen path) :
    along f visited paths = along g visited paths := by
  induction paths generalizing visited with
  | nil => rfl
  | cons path rest ih =>
    rw [along, along, h path (List.mem_cons_self ..), ih fun x hx => h x (List.mem_cons_of_mem _ hx)]

/-- A path that may go on in both searches goes on alike. -/
theorem branches_bounded {path : Path} (hshort : path.length + 1 < short)
    (hlong : path.length + 1 < long) (visited : List Nat) :
    branches index (req.bounded few short) visited path
      = branches index (req.bounded many long) visited path := by
  have hgoes : ¬ (req.bounded few short).maxPools ≤ path.length + 1 := Nat.not_le.2 hshort
  have hgoes' : ¬ (req.bounded many long).maxPools ≤ path.length + 1 := Nat.not_le.2 hlong
  rw [branches, branches, if_neg hgoes, if_neg hgoes']
  rfl

/-- The levels below the lower limit; the path without hops is expanded under any limit. -/
theorem level_bounded {k : Nat} (hshort : k < max short 1) (hlong : k < max long 1) :
    level index (req.bounded few short) k = level index (req.bounded many long) k := by
  induction k with
  | zero => rfl
  | succ k ih =>
    have hprev := ih (Nat.lt_of_succ_lt hshort) (Nat.lt_of_succ_lt hlong)
    rw [level, level, hprev]
    congr 1
    refine along_congr ?_
    intro path hpath seen
    have hlen := length_of_mem_level hpath
    exact branches_bounded (by omega) (by omega) seen

theorem offered_bounded {k : Nat} (hshort : k < max short 1) (hlong : k < max long 1) :
    offered index (req.bounded few short) k = offered index (req.bounded many long) k := by
  rw [offered, offered, level_bounded hshort hlong]
  rfl

theorem found_bounded {k : Nat} (hroutes : few ≤ many) (hshort : k ≤ max short 1)
    (hlong : k ≤ max long 1) :
    found index (req.bounded few short) k = (found index (req.bounded many long) k).take few := by
  induction k with
  | zero => exact List.take_nil.symm
  | succ k ih =>
    rw [found, found, offered_bounded hshort hlong, ih (Nat.le_of_succ_le hshort)
      (Nat.le_of_succ_le hlong)]
    exact foldl_addRoute_take hroutes _ _

end Search

/-- With more routes allowed a search goes on behind what it finds with fewer, and with longer routes
allowed behind what it finds with shorter ones. -/
theorem findRoutes_bounded {ctx : Context} (hctx : ∀ n, ctx.isDone .search n = false)
    (index : LiquidityIndex) {req : SearchRequest} (hne : req.denomIn ≠ req.denomOut)
    {few many short long : Nat} (hroutes : few ≤ many) (hpools : short ≤ long) :
    ∃ narrow more longer,
      findRoutes ctx index (req.bounded few short) = .ok narrow ∧
      findRoutes ctx index (req.bounded many short) = .ok more ∧
      findRoutes ctx index (req.bounded few long) = .ok longer ∧
      narrow = more.take few ∧ narrow <+: longer := by
  have hpos : ∀ n, 0 < max n 1 := fun n => Nat.lt_of_lt_of_le Nat.one_pos (Nat.le_max_right n 1)
  have hrun : ∀ m n, findRoutes ctx index (req.bounded m n)
      = .ok (Search.found index (req.bounded m n) (max n 1)) := by
    intro m n
    have hne' : (req.bounded m n).denomIn ≠ (req.bounded m n).denomOut := hne
    exact findRoutes_eq_found_of_le hctx hne' (hpos n) (Nat.le_max_left n 1)
  have hdepth : max short 1 ≤ max long 1 := max_le_max_right 1 hpools
  refine ⟨_, _, _, hrun few short, hrun many short, hrun few long, ?_, ?_⟩
  · exact Search.found_bounded hroutes (Nat.le_refl _) (Nat.le_refl _)
  · have hsame : Search.found index (req.bounded few short) (max short 1)
        = Search.found index (req.bounded few long) (max short 1) := by
      rw [Search.found_bounded (Nat.le_refl few) (Nat.le_refl _) hdepth]
      exact List.take_of_length_le (Search.collected_found _).length_le
    rw [hsame]
    exact Search.prefix_found_of_le hdepth

theorem detour_bounded :
    ∃ more longer,
      findRoutes .background (Generation.build detour {} {}).index (detourRequest.bounded 4 3)
        = .ok more ∧ more.length = 2 ∧
      findRoutes .background (Generation.build detour {} {}).index (detourRequest.bounded 1 3)
        = .ok (more.take 1) ∧
      findRoutes .background (Generation.build detour {} {}).index (detourRequest.bounded 1 4)
        = .ok longer ∧ more.take 1 <+: longer := by
  have hctx : ∀ n, Context.background.isDone .search n = false := fun _ => rfl
  have hne : detourRequest.denomIn ≠ detourRequest.denomOut := by decide
  obtain ⟨narrow, more, longer, hnarrow, hmore, hlonger, rfl, hprefix⟩ :=
    findRoutes_bounded hctx (Generation.build detour {} {}).index hne
      (show 1 ≤ 4 by decide) (show 3 ≤ 4 by decide)
  refine ⟨more, longer, hmore, ?_, hnarrow, hlonger, hprefix⟩
  have hne' : (detourRequest.bounded 4 3).denomIn ≠ (detourRequest.bounded 4 3).denomOut := hne
  rw [findRoutes_eq_found hctx hne' (by decide), Except.ok.injEq] at hmore
  rw [← hmore]
  rfl

end SwapRouting
