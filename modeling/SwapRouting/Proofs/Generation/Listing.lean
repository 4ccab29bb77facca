import SwapRouting.Proofs.Generation.Reordering

/-! The lists of the index beside the pools of the snapshot.

For every denom the index keeps one list that no threshold has cut: the pools of the snapshot that hold
the denom, best first. What it gives for a threshold, a configured tier or any other, is this list with
the pools that pass. -/
namespace SwapRouting
set_option autoImplicit false

/-- The list of a denom that no threshold has cut; none for an unknown denom. -/
def LiquidityIndex.sorted? (index : LiquidityIndex) (denom : Denom) : Option (List Pool) :=
  (index.byDenom.get? denom).map fun e => e.sorted

/-- Whether a pool may stand before another one: a preferred one before any other, then more liquidity,
then the lower identifier. -/
def RouterConfig.MayPrecede (config : RouterConfig) (a b : Pool) : Prop :=
  (config.isPreferred a.id ∧ ¬ config.isPreferred b.id) ∨
    ((config.isPreferred a.id ↔ config.isPreferred b.id) ∧
      (b.liquidityCap < a.liquidityCap ∨ (a.liquidityCap = b.liquidityCap ∧ a.id ≤ b.id)))

/-! ## Pools that hold a denom -/

/-- Every pool is listed as often as it lists the denom. -/
theorem count_holders {pools : List Pool} (hnodup : pools.Nodup) {p : Pool} (hp : p ∈ pools)
    (denom : Denom) : (holders pools denom).count p = p.denoms.count denom := by
  induction pools with
  | nil => cases hp
  | cons q r ih =>
    obtain ⟨hq, hr⟩ := List.nodup_cons.1 hnodup
    have hcons : holders (q :: r) denom
        = List.replicate (q.denoms.count denom) q ++ holders r denom := List.flatMap_cons
    rw [hcons, List.count_append, List.count_replicate]
    rcases List.mem_cons.1 hp with rfl | hp
    · have hnone : (holders r denom).count p = 0 :=
        List.count_eq_zero.2 fun hmem => hq (mem_holders.1 hmem).1
      simp [hnone]
    · have hne : ¬ (q == p) = true := by
        rw [beq_iff_eq]
        rintro rfl
        exact hq hp
      rw [if_neg hne, Nat.zero_add, ih hr hp]

namespace Generation

/-- What the index of a generation has for one denom. -/
structure IndexesFully (g : Generation) (config : RouterConfig) (denom : Denom) : Prop where
  found : ∀ threshold, (g.index.pools? denom threshold).isSome
    ↔ ∃ p ∈ g.snapshot.pools.values, p.holds denom
  cut : ∀ threshold, g.index.pools? denom threshold
    = (g.index.sorted? denom).map (List.filter (config.passes threshold))
  holds : ∀ full, g.index.sorted? denom = some full →
    ∀ p, p ∈ full ↔ p ∈ g.snapshot.pools.values ∧ p.holds denom
  counts : ∀ full, g.index.sorted? denom = some full →
    ∀ p ∈ g.snapshot.pools.values, full.count p = p.denoms.count denom
  ordered : ∀ full, g.index.sorted? denom = some full → full.Pairwise config.MayPrecede

section
variable (block : Block) (config : RouterConfig) (whitelist : CodeWhitelist) (denom : Denom)

theorem sorted?_index_build : (build block config whitelist).index.sorted? denom
    = (poolsByDenom config (build block config whitelist).snapshot.pools.values).get? denom := by
  rw [LiquidityIndex.sorted?, index_build, get?_byDenom_build, Option.map_map]
  exact Option.map_id_apply

theorem pools?_index_build (threshold : Nat) :
    (build block config whitelist).index.pools? denom threshold
      = ((build block config whitelist).index.sorted? denom).map
          (List.filter (config.passes threshold)) := by
  rw [sorted?_index_build, index_build]
  exact pools?_build (fun _ h => bestFirst_of_get?_poolsByDenom h) threshold

theorem eq_bestHolders_of_sorted? {full : List Pool}
    (h : (build block config whitelist).index.sorted? denom = some full) :
    full = bestHolders config (build block config whitelist).snapshot.pools.values denom := by
  rw [sorted?_index_build, get?_poolsByDenom] at h
  split at h
  · exact (Option.some.inj h).symm
  · cases h

/-- The tiers of a block agree with a filter that is applied on the spot. -/
theorem indexesFully_build : (build block config whitelist).IndexesFully config denom := by
  refine ⟨?_, pools?_index_build block config whitelist denom, ?_, ?_, ?_⟩
  · intro threshold
    rw [pools?_index_build, Option.isSome_map, sorted?_index_build, get?_poolsByDenom]
    split
    · next hheld => exact iff_of_true rfl hheld
    · next hnone => exact iff_of_false Bool.false_ne_true hnone
  · intro full hfull p
    rw [eq_bestHolders_of_sorted? block config whitelist denom hfull, mem_bestHolders]
  · intro full hfull p hp
    have hids : ((build block config whitelist).snapshot.pools.values.map fun p => p.id).Nodup :=
      PoolSnapshot.nodup_ids_values _ _
    rw [eq_bestHolders_of_sorted? block config whitelist denom hfull, bestHolders,
      (sortBy_perm _ _).count_eq, count_holders hids.of_map hp]
  · intro full hfull
    rw [sorted?_index_build] at hfull
    refine (bestFirst_of_get?_poolsByDenom hfull).imp ?_
    intro a b hab
    exact comparePools_isLE_iff.1 hab

end

end Generation

end SwapRouting
