import SwapRouting.Proofs.LiquidityIndex
import SwapRouting.Proofs.Route.Attach

/-! What the index of a generation lists.

A block is indexed completely: for every denom and every threshold the index gives the pools of the
snapshot that hold the denom and pass the threshold, in the order of `comparePools`. No two pools of a
snapshot have one identifier. -/
namespace SwapRouting
set_option autoImplicit false

/-- The pools that the index gives for a denom. -/
def LiquidityIndex.listed (index : LiquidityIndex) (denom : Denom) (threshold : Nat) : List Pool :=
  (index.pools? denom threshold).getD []

/-- An index that lists the pools of a market under a threshold: for every denom those that hold it. -/
structure LiquidityIndex.Lists (index : LiquidityIndex) (threshold : Nat) (market : Pool → Prop) :
    Prop where
  mem_iff : ∀ denom p, p ∈ index.listed denom threshold ↔ market p ∧ p.holds denom
  known : ∀ denom p, market p → p.holds denom → index.knows denom
  unique : ∀ p q, market p → market q → p.id = q.id → p = q

/-! ## Pools by denom -/

theorem mem_holders {pools : List Pool} {denom : Denom} {p : Pool} :
    p ∈ holders pools denom ↔ p ∈ pools ∧ p.holds denom := by
  simp only [holders, List.mem_flatMap, List.mem_replicate, PoolRecord.holds, List.contains_eq_mem,
    decide_eq_true_eq]
  constructor
  · rintro ⟨q, hq, hcount, rfl⟩
    exact ⟨hq, List.count_pos_iff.1 (Nat.pos_of_ne_zero hcount)⟩
  · rintro ⟨hp, hd⟩
    exact ⟨p, hp, (List.count_pos_iff.2 hd).ne', rfl⟩

/-- The pools that hold a denom, best first. -/
def bestHolders (config : RouterConfig) (pools : List Pool) (denom : Denom) : List Pool :=
  sortBy (fun a b => (comparePools config a b).isLE) (holders pools denom)

theorem mem_bestHolders {config : RouterConfig} {pools : List Pool} {denom : Denom} {p : Pool} :
    p ∈ bestHolders config pools denom ↔ p ∈ pools ∧ p.holds denom := by
  rw [bestHolders, (sortBy_perm _ _).mem_iff, mem_holders]

theorem bestHolders_eq_nil {config : RouterConfig} {pools : List Pool} {denom : Denom}
    (h : ∀ p ∈ pools, ¬ p.holds denom) : bestHolders config pools denom = [] := by
  rw [List.eq_nil_iff_forall_not_mem]
  intro p hp
  obtain ⟨hmem, hholds⟩ := mem_bestHolders.1 hp
  exact h p hmem hholds

theorem get?_poolsByDenom (config : RouterConfig) (pools : List Pool) (denom : Denom) :
    (poolsByDenom config pools).get? denom
      = if ∃ p ∈ pools, p.holds denom then some (bestHolders config pools denom) else none := by
  have hkeys : denom ∈ pools.flatMap (fun p => p.denoms) ↔ ∃ p ∈ pools, p.holds denom := by
    simp [PoolRecord.holds]
  have hget := Dict.get?_ofList_map (pools.flatMap fun p => p.denoms) (bestHolders config pools) denom
  rw [if_congr hkeys rfl rfl] at hget
  exact hget

theorem bestFirst_of_get?_poolsByDenom {config : RouterConfig} {pools list : List Pool} {denom : Denom}
    (h : (poolsByDenom config pools).get? denom = some list) : BestFirst config list := by
  rw [get?_poolsByDenom] at h
  split at h
  · rw [← Option.some.inj h]
    exact bestFirst_sortBy _
  · cases h

namespace Generation

/-- A pool of a generation that a search under this threshold may use. -/
structure Eligible (g : Generation) (config : RouterConfig) (threshold : Nat) (p : Pool) : Prop where
  mem : p ∈ g.snapshot.pools.values
  passes : threshold ≤ p.liquidityCap ∨ config.isPreferred p.id

section
variable (block : Block) (config : RouterConfig) (whitelist : CodeWhitelist)

theorem index_build : (build block config whitelist).index = LiquidityIndex.build
    (poolsByDenom config (build block config whitelist).snapshot.pools.values) config := rfl

/-- The index of a block gives all pools that pass the threshold, best first. -/
theorem listed_build (denom : Denom) (threshold : Nat) :
    (build block config whitelist).index.listed denom threshold
      = (bestHolders config (build block config whitelist).snapshot.pools.values denom).filter
          (config.passes threshold) := by
  have hget := get?_poolsByDenom config (build block config whitelist).snapshot.pools.values denom
  rw [LiquidityIndex.listed, index_build, pools?_build fun _ h => bestFirst_of_get?_poolsByDenom h,
    hget]
  split
  · rfl
  · next hnone =>
    rw [bestHolders_eq_nil fun p hp hd => hnone ⟨p, hp, hd⟩]
    rfl

theorem knows_build_iff (denom : Denom) :
    (build block config whitelist).index.knows denom
      ↔ ∃ p ∈ (build block config whitelist).snapshot.pools.values, p.holds denom := by
  rw [index_build, knows_build, get?_poolsByDenom]
  split
  · next h => simp [h]
  · next h => simp [h]

theorem get?_id_of_mem_values {p : Pool}
    (h : p ∈ (build block config whitelist).snapshot.pools.values) :
    (build block config whitelist).snapshot.get? p.id = some p := by
  have hasc : (build block config whitelist).snapshot.pools.Ascending := Dict.ascending_ofList _
  have hkeyed : (build block config whitelist).snapshot.Keyed := PoolSnapshot.keyed_ofPools _ _
  obtain ⟨id, hid⟩ := hasc.mem_values_iff.1 h
  rw [hkeyed id p hid]
  exact hid

/-- The index of a block lists its eligible pools. -/
theorem lists_build (threshold : Nat) :
    (build block config whitelist).index.Lists threshold
      ((build block config whitelist).Eligible config threshold) := by
  refine ⟨?_, ?_, ?_⟩
  · intro denom p
    rw [listed_build, List.mem_filter, mem_bestHolders, RouterConfig.passes_iff]
    constructor
    · rintro ⟨⟨hmem, hholds⟩, hpass⟩
      exact ⟨⟨hmem, hpass⟩, hholds⟩
    · rintro ⟨⟨hmem, hpass⟩, hholds⟩
      exact ⟨⟨hmem, hholds⟩, hpass⟩
  · intro denom p hp hholds
    exact (knows_build_iff block config whitelist denom).2 ⟨p, hp.mem, hholds⟩
  · intro p q hp hq hid
    have hgetp := get?_id_of_mem_values block config whitelist hp.mem
    have hgetq := get?_id_of_mem_values block config whitelist hq.mem
    rw [hid, hgetq, Option.some.injEq] at hgetp
    exact hgetp.symm

/-- A higher threshold leaves the first pools of every list. -/
theorem listed_of_le {lo hi : Nat} (hle : lo ≤ hi) (denom : Denom) :
    (build block config whitelist).index.listed denom hi
        = ((build block config whitelist).index.listed denom lo).filter (config.passes hi) ∧
      Leading (config.passes hi) ((build block config whitelist).index.listed denom lo) := by
  rw [listed_build, listed_build]
  constructor
  · rw [List.filter_filter]
    refine List.filter_congr ?_
    intro p _
    rw [Bool.eq_iff_iff, Bool.and_eq_true]
    exact ⟨fun h => ⟨h, RouterConfig.passes_of_le hle h⟩, fun h => h.1⟩
  · have hsorted : BestFirst config
        (bestHolders config (build block config whitelist).snapshot.pools.values denom) :=
      bestFirst_sortBy _
    exact List.Pairwise.sublist List.filter_sublist (hsorted.leading hi)

end

end Generation

end SwapRouting
