import SwapRouting.Proofs.Generation
import SwapRouting.Proofs.Snapshot

/-! Blocks in another order.

A block whose pools have identifiers of their own, and whose fees are for different pairs, makes one
generation in whatever order its pools and fees are reported. Nor does it matter in which order the pools
of the snapshot are visited: they are sorted for the index, and the deepest order book of a pair is the
same pool in every order. -/
namespace SwapRouting
set_option autoImplicit false

/-! ## The index -/

section
variable {config : RouterConfig} {pools pools' : List Pool}

theorem bestHolders_eq_of_perm (hperm : pools.Perm pools') (hids : (pools.map fun p => p.id).Nodup)
    (denom : Denom) : bestHolders config pools denom = bestHolders config pools' denom := by
  unfold bestHolders
  apply sortBy_eq_of_perm comparePools_total comparePools_trans
  · unfold holders
    exact hperm.flatMap_right _
  · intro p hp q hq hpq hqp
    have hp' := (mem_holders.1 hp).1
    have hq' := (mem_holders.1 hq).1
    exact List.inj_on_of_nodup_map hids hp' hq' (id_eq_of_isLE hpq hqp)

theorem poolsByDenom_eq_of_perm (hperm : pools.Perm pools') (hids : (pools.map fun p => p.id).Nodup) :
    poolsByDenom config pools = poolsByDenom config pools' := by
  apply (Dict.ascending_ofList _).eq_of_get? (Dict.ascending_ofList _)
  intro denom
  have hget := get?_poolsByDenom config pools denom
  have hget' := get?_poolsByDenom config pools' denom
  simp only [hperm.mem_iff, bestHolders_eq_of_perm hperm hids] at hget
  exact hget.trans hget'.symm

end

/-! ## The snapshot -/

namespace PoolSnapshot

/-- No two pools of a snapshot have one identifier, whatever the pools it was made of have. -/
theorem nodup_ids_values (height : Nat) (pools : List Pool) :
    ((ofPools height pools).pools.values.map fun p => p.id).Nodup := by
  have hasc : (ofPools height pools).pools.Ascending := Dict.ascending_ofList _
  have hkey : ∀ e ∈ (ofPools height pools).pools.entries, e.2.id = e.1 := fun e he =>
    keyed_ofPools height pools e.1 e.2 (hasc.get?_of_mem he)
  unfold Dict.values
  rw [List.map_map, List.Nodup, List.pairwise_map]
  refine List.Pairwise.imp_of_mem ?_ hasc
  intro a b ha hb hlt
  simp only [Function.comp_apply, hkey a ha, hkey b hb]
  omega

theorem ofPools_eq_of_perm (height : Nat) {pools pools' : List Pool} (hperm : pools.Perm pools')
    (hids : (pools.map fun p => p.id).Nodup) : ofPools height pools = ofPools height pools' := by
  have hdict : Dict.ofList (pools.map fun p => (p.id, p)) = Dict.ofList (pools'.map fun p => (p.id, p)) := by
    apply Dict.ofList_eq_of_perm (hperm.map _)
    rw [List.map_map]
    exact hids
  unfold ofPools
  rw [hdict]

/-- Whether one order book of every traded pair is canonical, and this is the deepest one. -/
def CanonicalDeepest (s : PoolSnapshot) : Prop :=
  ∀ q ∈ s.pools.values, ∀ pair, orderbookPair? q = some pair →
    ∃ p, Deepest s.pools.values pair p ∧
      ∀ r ∈ s.pools.values, orderbookPair? r = some pair → (s.isCanonicalOrderbook r.id ↔ r = p)

theorem isCanonicalOrderbook_iff (height : Nat) (pools : List Pool) (id : Nat) :
    (ofPools height pools).isCanonicalOrderbook id
      ↔ ∃ pair p, Deepest (ofPools height pools).pools.values pair p ∧ p.id = id := by
  have hids := nodup_ids_values height pools
  have hmem : (ofPools height pools).isCanonicalOrderbook id
      ↔ id ∈ (deepestOrderbooks (ofPools height pools).pools.values).values.map fun p => p.id := by
    rw [isCanonicalOrderbook, List.contains_iff_mem]
    exact mem_ascending
  rw [hmem, List.mem_map]
  constructor
  · rintro ⟨p, hp, rfl⟩
    obtain ⟨pair, hdeep⟩ := (mem_deepestOrderbooks_iff hids).1 hp
    exact ⟨pair, p, hdeep, rfl⟩
  · rintro ⟨pair, p, hdeep, rfl⟩
    exact ⟨p, (mem_deepestOrderbooks_iff hids).2 ⟨pair, hdeep⟩, rfl⟩

theorem canonicalDeepest_ofPools (height : Nat) (pools : List Pool) :
    (ofPools height pools).CanonicalDeepest := by
  have hids := nodup_ids_values height pools
  intro q hq pair hpair
  obtain ⟨p, hp⟩ := exists_deepest hq hpair
  refine ⟨p, hp, ?_⟩
  intro r hr hrpair
  rw [isCanonicalOrderbook_iff]
  constructor
  · rintro ⟨pair', r', hr', hid⟩
    have hsame : r' = r := List.inj_on_of_nodup_map hids hr'.mem hr hid
    subst hsame
    -- a pool is filed under one pair, so it is the deepest one of this pair
    have hpairs : pair' = pair := Option.some.inj (hr'.trades.symm.trans hrpair)
    exact (hpairs ▸ hr').unique hids hp
  · rintro rfl
    exact ⟨pair, r, hp, rfl⟩

end PoolSnapshot

/-! ## The generation -/

theorem id_of_routable? {whitelist : CodeWhitelist} {p q : Pool} (h : p.routable? whitelist = some q) :
    q.id = p.id := by
  unfold Pool.routable? at h
  split at h
  · cases h
  · split at h
    · obtain ⟨role, -, rfl⟩ := Option.map_eq_some_iff.1 h
      rfl
    · rw [Option.some.inj h]

theorem nodup_ids_routable (whitelist : CodeWhitelist) {pools : List Pool}
    (hids : (pools.map fun p => p.id).Nodup) :
    ((pools.filterMap fun p => p.routable? whitelist).map fun p => p.id).Nodup := by
  rw [List.Nodup, List.pairwise_map] at hids ⊢
  rw [List.pairwise_filterMap]
  refine hids.imp ?_
  intro a b hne a' ha b' hb
  rw [id_of_routable? ha, id_of_routable? hb]
  exact hne

/-- A block with the pools and the fees of another one, in any order. -/
structure Block.Reorders (block' block : Block) : Prop where
  height : block'.height = block.height
  pools : block'.pools.Perm block.pools
  fees : block'.fees.Perm block.fees

/-- A block in which no two pools have one identifier and no two fees are for one pair. -/
structure Block.Distinct (block : Block) : Prop where
  ids : (block.pools.map fun p => p.id).Nodup
  pairs : (block.fees.map TakerFee.pair).Nodup

namespace Generation

/-- Whether the generation of a block is free of every order: that in which the pools and fees of the
block are reported, that in which the pools of the snapshot are visited, and that in which the order
books found are listed. -/
structure OrderFree (block : Block) (config : RouterConfig) (whitelist : CodeWhitelist) : Prop where
  build_eq : ∀ block' : Block, block'.Reorders block →
    build block' config whitelist = build block config whitelist
  index_eq : ∀ order : List Pool, order.Perm (build block config whitelist).snapshot.pools.values →
    LiquidityIndex.build (poolsByDenom config order) config = (build block config whitelist).index
  orderbooks_eq : ∀ order : List Pool, order.Perm (build block config whitelist).snapshot.pools.values →
    ∀ books : List Pool, books.Perm (PoolSnapshot.deepestOrderbooks order).values →
      ascending (books.map fun p => p.id)
        = (build block config whitelist).snapshot.canonicalOrderbooks
  canonical : (build block config whitelist).snapshot.CanonicalDeepest

theorem build_eq_of_reorders (config : RouterConfig) (whitelist : CodeWhitelist) {block block' : Block}
    (hdistinct : block.Distinct) (h : block'.Reorders block) :
    build block' config whitelist = build block config whitelist := by
  have hpools := (h.pools.filterMap fun p => p.routable? whitelist).symm
  have hsnapshot := PoolSnapshot.ofPools_eq_of_perm block.height hpools
    (nodup_ids_routable whitelist hdistinct.ids)
  have hfees := FeeTable.ofEntries_eq_of_perm h.fees.symm hdistinct.pairs
  unfold build
  rw [h.height, ← hsnapshot, ← hfees]

theorem orderFree_of_distinct (block : Block) (config : RouterConfig) (whitelist : CodeWhitelist)
    (hdistinct : block.Distinct) : OrderFree block config whitelist := by
  have hids : ((build block config whitelist).snapshot.pools.values.map fun p => p.id).Nodup :=
    PoolSnapshot.nodup_ids_values _ _
  refine ⟨?_, ?_, ?_, PoolSnapshot.canonicalDeepest_ofPools _ _⟩
  · intro block' h
    exact build_eq_of_reorders config whitelist hdistinct h
  · intro order hperm
    rw [index_build, poolsByDenom_eq_of_perm hperm.symm hids]
  · intro order hperm books hbooks
    apply ascending_eq_of_mem_iff
    intro id
    have hmem : ∀ p, p ∈ books ↔
        p ∈ (PoolSnapshot.deepestOrderbooks (build block config whitelist).snapshot.pools.values).values := by
      intro p
      rw [hbooks.mem_iff, PoolSnapshot.mem_deepestOrderbooks_of_perm hperm.symm hids]
    simp only [List.mem_map, hmem]
    rfl

def bookOf (id : Nat) (a b : Denom) (cap : Nat) : Pool :=
  PoolRecord.unpriced ⟨id, .contract 7 .orderbook, [a, b], [], Decimal.zero, cap⟩

/-- Order books of one pair, two of them equally deep, and a deeper pool that is none. -/
def books : Block :=
  ⟨1, [bookOf 1 "a" "b" 5, bookOf 3 "b" "a" 9, bookOf 2 "a" "b" 9,
      PoolRecord.constantProduct ⟨4, .constantProduct, ["b", "a"], [], Decimal.zero, 20⟩],
    [⟨"a", "b", Decimal.zero⟩, ⟨"c", "b", Decimal.thousandth⟩]⟩

theorem books_orderFree :
    books.Distinct ∧ OrderFree books {} { orderbook := [7] } ∧
      (build books {} { orderbook := [7] }).snapshot.canonicalOrderbooks = [2] := by
  have hdistinct : books.Distinct := ⟨by decide, by decide⟩
  exact ⟨hdistinct, orderFree_of_distinct books {} { orderbook := [7] } hdistinct, by rfl⟩

end Generation

end SwapRouting
