import Mathlib.Data.List.Chain
import Mathlib.Order.Lattice
import SwapRouting.Config
import SwapRouting.Proofs.Sorting

/-! Liquidity filters of accepted settings.

Settings are checked between neighbours: each entry has a greater cap than the next one and no lesser filter.
Both relations carry over to entries further apart, so the first entry that a token reaches has the greatest
filter of all that it reaches. -/
namespace SwapRouting
set_option autoImplicit false

/-- Whether one entry may stand before another one. -/
structure LiquidityFilter.Above (f g : LiquidityFilter) : Prop where
  cap : g.minTokensCap < f.minTokensCap
  filter : g.filterValue ≤ f.filterValue

instance : Trans LiquidityFilter.Above LiquidityFilter.Above LiquidityFilter.Above where
  trans hfg hgh := ⟨hgh.cap.trans hfg.cap, hgh.filter.trans hfg.filter⟩

theorem validateFilters_eq_ok_iff {fs : List LiquidityFilter} :
    validateFilters fs = .ok () ↔ fs.IsChain LiquidityFilter.Above := by
  induction fs with
  | nil => exact iff_of_true rfl .nil
  | cons f r ih =>
    cases r with
    | nil => exact iff_of_true rfl (.singleton f)
    | cons g r =>
      rw [validateFilters, List.isChain_cons_cons, ← ih]
      constructor
      · intro h
        split at h
        · cases h
        · next hcap =>
          split at h
          · cases h
          · next hfilter => exact ⟨⟨Nat.not_le.1 hcap, Nat.not_lt.1 hfilter⟩, h⟩
      · rintro ⟨habove, h⟩
        rw [if_neg (Nat.not_le.2 habove.cap), if_neg (Nat.not_lt.2 habove.filter)]
        exact h

/-- A list that never rises starts with its greatest number. -/
theorem max?_eq_head? {ns : List Nat} (h : ns.Pairwise fun m n => n ≤ m) : ns.max? = ns.head? := by
  cases ns with
  | nil => rfl
  | cons n r =>
    rw [List.head?_cons, List.max?_eq_some_iff, List.forall_mem_cons]
    exact ⟨List.mem_cons_self .., Nat.le_refl n, fun m hm => List.rel_of_pairwise_cons h hm⟩

namespace RouterConfig

variable {c : RouterConfig}

theorem pairwise_above (h : c.validate = .ok ()) : c.dynamicFilters.Pairwise LiquidityFilter.Above := by
  rw [validate] at h
  split at h
  · cases h
  · split at h
    · cases h
    · split at h
      · cases h
      · exact List.isChain_iff_pairwise.1 (validateFilters_eq_ok_iff.1 h)

/-- The filters of all entries whose cap a token reaches. -/
def reachedFilters (c : RouterConfig) (tokensCap : Nat) : List Nat :=
  (c.dynamicFilters.filter fun f => decide (f.minTokensCap ≤ tokensCap)).map (·.filterValue)

theorem mem_reachedFilters_iff {tokensCap n : Nat} :
    n ∈ c.reachedFilters tokensCap ↔ ∃ f ∈ c.dynamicFilters, f.minTokensCap ≤ tokensCap ∧ f.filterValue = n := by
  simp only [reachedFilters, List.mem_map, List.mem_filter, decide_eq_true_eq, and_assoc]

theorem liquidityFilter_eq_head? (c : RouterConfig) (tokensCap : Nat) :
    c.liquidityFilter tokensCap = (c.reachedFilters tokensCap).head?.getD c.minPoolLiquidityCap := by
  rw [liquidityFilter, reachedFilters, List.head?_map, List.head?_filter]
  cases c.dynamicFilters.find? fun f => decide (f.minTokensCap ≤ tokensCap) with
  | none => rfl
  | some f => rfl

theorem liquidityFilter_eq_max? (h : c.validate = .ok ()) (tokensCap : Nat) :
    c.liquidityFilter tokensCap = (c.reachedFilters tokensCap).max?.getD c.minPoolLiquidityCap := by
  have hfalls : (c.reachedFilters tokensCap).Pairwise fun m n => n ≤ m :=
    List.pairwise_map.2 (((pairwise_above h).filter _).imp LiquidityFilter.Above.filter)
  rw [liquidityFilter_eq_head?, max?_eq_head? hfalls]

theorem liquidityFilter_mem {tokensCap : Nat} (hreached : c.reachedFilters tokensCap ≠ []) :
    c.liquidityFilter tokensCap ∈ c.reachedFilters tokensCap := by
  rw [liquidityFilter_eq_head?, List.head?_eq_some_head hreached]
  exact List.head_mem hreached

/-- A token with more liquidity is never held to a lower filter, unless the other one reaches no entry. -/
theorem liquidityFilter_mono (h : c.validate = .ok ()) {low high : Nat} (hle : low ≤ high)
    (hreached : c.reachedFilters low ≠ []) : c.liquidityFilter low ≤ c.liquidityFilter high := by
  obtain ⟨f, hf, hcap, hfilter⟩ := mem_reachedFilters_iff.1 (liquidityFilter_mem hreached)
  -- the entry whose filter the lower token has is reached by the other one, too
  have hmem : c.liquidityFilter low ∈ c.reachedFilters high :=
    mem_reachedFilters_iff.2 ⟨f, hf, hcap.trans hle, hfilter⟩
  rw [liquidityFilter_eq_max? h high]
  cases hmax : (c.reachedFilters high).max? with
  | none =>
    rw [List.max?_eq_none_iff.1 hmax] at hmem
    cases hmem
  | some m => exact (List.max?_eq_some_iff.1 hmax).2 _ hmem

theorem liquidityFilter_mem_tiers (c : RouterConfig) (tokensCap : Nat) :
    c.liquidityFilter tokensCap ∈ c.liquidityTiers := by
  rw [liquidityTiers, mem_ascending]
  by_cases hreached : c.reachedFilters tokensCap = []
  · rw [liquidityFilter_eq_head?, hreached]
    exact List.mem_cons_self ..
  · obtain ⟨f, hf, -, hfilter⟩ := mem_reachedFilters_iff.1 (liquidityFilter_mem hreached)
    exact List.mem_cons_of_mem _ (List.mem_map.2 ⟨f, hf, hfilter⟩)

end RouterConfig

end SwapRouting
