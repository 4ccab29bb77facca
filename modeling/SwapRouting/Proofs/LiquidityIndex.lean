import SwapRouting.Generation
import SwapRouting.Proofs.Dict
import SwapRouting.Proofs.Sorting

/-! What the liquidity index gives for a denom and a threshold.

In a list sorted by `comparePools` every pool that passes a threshold stands before every pool that does
not. So closing a tier at the first pool below it loses nothing, and a configured threshold gives the
same pools as one that is applied on the spot. -/
namespace SwapRouting
set_option autoImplicit false

/-- Whether a pool may be used under a liquidity threshold: it reaches it or is preferred. -/
def RouterConfig.passes (config : RouterConfig) (threshold : Nat) (p : Pool) : Bool :=
  decide (threshold ≤ p.liquidityCap) || config.isPreferred p.id

theorem RouterConfig.passes_iff {config : RouterConfig} {threshold : Nat} {p : Pool} :
    config.passes threshold p ↔ threshold ≤ p.liquidityCap ∨ config.isPreferred p.id := by
  rw [passes, Bool.or_eq_true, decide_eq_true_eq]

/-- A lower threshold lets all pools through that a higher one does. -/
theorem RouterConfig.passes_of_le {config : RouterConfig} {lo hi : Nat} (hle : lo ≤ hi) {p : Pool}
    (h : config.passes hi p) : config.passes lo p := by
  rw [passes_iff] at h ⊢
  rcases h with h | h
  · exact Or.inl (hle.trans h)
  · exact Or.inr h

/-! ## The order of the pools -/

section
variable {config : RouterConfig}

theorem comparePools_isLE_iff {a b : Pool} :
    (comparePools config a b).isLE ↔
      (config.isPreferred a.id ∧ ¬ config.isPreferred b.id) ∨
      ((config.isPreferred a.id ↔ config.isPreferred b.id) ∧
        (b.liquidityCap < a.liquidityCap ∨ (a.liquidityCap = b.liquidityCap ∧ a.id ≤ b.id))) := by
  unfold comparePools
  simp only [Ordering.isLE_then_iff_or, Nat.compare_eq_lt, Nat.compare_eq_eq, Nat.isLE_compare,
    @eq_comm _ b.liquidityCap]
  have hbool : compare false true = Ordering.lt := rfl
  cases config.isPreferred a.id <;> cases config.isPreferred b.id <;> simp [hbool]

theorem comparePools_total (a b : Pool) :
    (comparePools config a b).isLE ∨ (comparePools config b a).isLE := by
  simp only [comparePools_isLE_iff]
  grind

theorem comparePools_trans (a b c : Pool) (hab : (comparePools config a b).isLE)
    (hbc : (comparePools config b c).isLE) : (comparePools config a c).isLE := by
  rw [comparePools_isLE_iff] at *
  grind

/-- Two pools that may precede each other have one identifier. -/
theorem id_eq_of_isLE {a b : Pool} (hab : (comparePools config a b).isLE)
    (hba : (comparePools config b a).isLE) : a.id = b.id := by
  rw [comparePools_isLE_iff] at hab hba
  grind

/-- Pools in the order of `comparePools`. -/
def BestFirst (config : RouterConfig) (pools : List Pool) : Prop :=
  pools.Pairwise fun a b => (comparePools config a b).isLE

theorem bestFirst_sortBy (pools : List Pool) :
    BestFirst config (sortBy (fun a b => (comparePools config a b).isLE) pools) :=
  pairwise_sortBy comparePools_total comparePools_trans pools

/-- What stands before a pool that passes a threshold passes it, too. -/
theorem passes_of_isLE {threshold : Nat} {a b : Pool} (h : (comparePools config a b).isLE)
    (hb : config.passes threshold b) : config.passes threshold a := by
  rw [comparePools_isLE_iff] at h
  rw [RouterConfig.passes_iff] at hb ⊢
  rcases h with ⟨ha, -⟩ | ⟨hiff, hcap⟩
  · exact Or.inr ha
  · rcases hb with hb | hb
    · exact Or.inl (by omega)
    · exact Or.inr (hiff.2 hb)

theorem BestFirst.leading {pools : List Pool} (h : BestFirst config pools) (threshold : Nat) :
    Leading (config.passes threshold) pools :=
  h.imp passes_of_isLE

/-! ## Tiers -/

section
variable {tiers : List Nat} {closed cap : Nat}

/-- A pool is below every tier that it closes. -/
theorem lt_of_lt_firstOpen {i t : Nat} (hlow : closed ≤ i) (hi : i < firstOpen tiers closed cap)
    (ht : tiers[i]? = some t) : cap < t := by
  rw [firstOpen] at hi
  have hbefore : i - closed < (tiers.drop closed).findIdx fun t => decide (t ≤ cap) := by omega
  have hget : (tiers.drop closed)[i - closed]? = some t := by
    rw [List.getElem?_drop, show closed + (i - closed) = i by omega, ht]
  obtain ⟨hlt, rfl⟩ := List.getElem?_eq_some_iff.1 hget
  have hnot := List.not_of_lt_findIdx hbefore
  simpa using hnot

/-- A pool reaches the first tier that it leaves open, and with it all tiers that are less strict. -/
theorem le_of_firstOpen_le (hdesc : tiers.Pairwise (· > ·)) {i t : Nat}
    (hi : firstOpen tiers closed cap ≤ i) (ht : tiers[i]? = some t) : t ≤ cap := by
  obtain ⟨hlt, rfl⟩ := List.getElem?_eq_some_iff.1 ht
  have hfirst : firstOpen tiers closed cap < tiers.length := by omega
  have hfind : (tiers.drop closed).findIdx (fun t => decide (t ≤ cap))
      < (tiers.drop closed).length := by
    rw [firstOpen] at hfirst
    rw [List.length_drop]
    omega
  have hreaches : tiers[firstOpen tiers closed cap] ≤ cap := by
    have hfound := List.findIdx_getElem (w := hfind)
    rw [List.getElem_drop] at hfound
    exact of_decide_eq_true hfound
  rcases Nat.eq_or_lt_of_le hi with heq | hless
  · simpa only [heq] using hreaches
  · have hgt := List.pairwise_iff_getElem.1 hdesc _ _ hfirst hlt hless
    omega

/-- Whether nothing but preferred pools passes the first `closed` tiers. -/
def OnlyPreferredBelow (config : RouterConfig) (tiers : List Nat) (closed : Nat)
    (pools : List Pool) : Prop :=
  ∀ i < closed, ∀ t, tiers[i]? = some t → ∀ p ∈ pools, config.passes t p → config.isPreferred p.id

theorem OnlyPreferredBelow.tail {p : Pool} {r : List Pool}
    (h : OnlyPreferredBelow config tiers closed (p :: r)) :
    OnlyPreferredBelow config tiers closed r :=
  fun i hi t ht q hq => h i hi t ht q (List.mem_cons_of_mem p hq)

/-- An ordinary pool closes tiers for good: it does not pass them, and nothing behind it does. -/
theorem OnlyPreferredBelow.filter_eq_nil {p : Pool} {r : List Pool}
    (hclosed : OnlyPreferredBelow config tiers closed (p :: r)) (h : BestFirst config (p :: r))
    (hpref : ¬ config.isPreferred p.id) {i t : Nat}
    (hi : i < firstOpen tiers closed p.liquidityCap) (ht : tiers[i]? = some t) :
    (p :: r).filter (config.passes t) = [] := by
  have hp : config.passes t p = false := by
    rw [Bool.eq_false_iff]
    intro hp
    by_cases hold : i < closed
    · exact hpref (hclosed i hold t ht p (List.mem_cons_self ..) hp)
    · have hbelow := lt_of_lt_firstOpen (Nat.le_of_not_lt hold) hi ht
      rcases RouterConfig.passes_iff.1 hp with hcap | hp
      · omega
      · exact hpref hp
  rw [List.filter_cons_of_neg (by simp [hp]), (h.leading t).filter_eq_nil hp]

/-- One pass puts into every tier what passes its threshold. A tier is closed only where all that is left
of the list is below it, apart from preferred pools. -/
theorem getElem?_buckets (hdesc : tiers.Pairwise (· > ·)) {pools : List Pool}
    (h : BestFirst config pools) (hclosed : OnlyPreferredBelow config tiers closed pools)
    {i t : Nat} (ht : tiers[i]? = some t) :
    (buckets config.preferredPools tiers closed pools)[i]?
      = some (pools.filter (config.passes t)) := by
  have hnone : (tiers.map fun _ => ([] : List Pool))[i]? = some [] := by
    rw [List.getElem?_map, ht]
    rfl
  induction pools generalizing closed with
  | nil => exact hnone
  | cons p r ih =>
    have hrest : BestFirst config r := List.Pairwise.of_cons h
    rw [buckets]
    by_cases hpref : config.preferredPools.contains p.id
    · have hpass : config.passes t p := RouterConfig.passes_iff.2 (Or.inr hpref)
      rw [if_pos hpref, List.getElem?_map, ih hrest hclosed.tail, List.filter_cons_of_pos hpass]
      rfl
    · have hshut : ∀ {j s}, j < firstOpen tiers closed p.liquidityCap → tiers[j]? = some s →
          (p :: r).filter (config.passes s) = [] := hclosed.filter_eq_nil h hpref
      rw [if_neg hpref]
      simp only
      split
      · next hall =>
        have hlt := (List.getElem?_eq_some_iff.1 ht).1
        rw [hnone, hshut (by omega) ht]
      · have hnext : OnlyPreferredBelow config tiers (firstOpen tiers closed p.liquidityCap) r := by
          intro j hj s hs q hq hpass
          have hmem : q ∈ (p :: r).filter (config.passes s) :=
            List.mem_filter.2 ⟨List.mem_cons_of_mem _ hq, hpass⟩
          rw [hshut hj hs] at hmem
          cases hmem
        rw [List.getElem?_mapIdx, ih hrest hnext, Option.map_some]
        split
        · next hopen =>
          have hpass : config.passes t p :=
            RouterConfig.passes_iff.2 (Or.inl (le_of_firstOpen_le hdesc hopen ht))
          rw [List.filter_cons_of_pos hpass]
        · next hopen =>
          have hempty := hshut (by omega) ht
          have hsub : (r.filter (config.passes t)).Sublist ((p :: r).filter (config.passes t)) :=
            (List.sublist_cons_self p r).filter _
          rw [hempty] at hsub ⊢
          rw [List.sublist_nil.1 hsub]

end

theorem liquidityTiers_reverse_desc (config : RouterConfig) :
    config.liquidityTiers.reverse.Pairwise (· > ·) :=
  List.pairwise_reverse.2 (pairwise_ascending _)

/-! ## Lookups -/

theorem get?_byDenom_build (lists : Dict Denom (List Pool)) (denom : Denom) :
    (LiquidityIndex.build lists config).byDenom.get? denom
      = (lists.get? denom).map
          (LiquidityIndex.denomPools config.preferredPools config.liquidityTiers.reverse) :=
  Dict.get?_map _ lists denom

theorem pools?_build {lists : Dict Denom (List Pool)} {denom : Denom}
    (h : ∀ pools, lists.get? denom = some pools → BestFirst config pools) (threshold : Nat) :
    (LiquidityIndex.build lists config).pools? denom threshold
      = (lists.get? denom).map (List.filter (config.passes threshold)) := by
  rw [LiquidityIndex.pools?, get?_byDenom_build, Option.map_map]
  cases hlist : lists.get? denom with
  | none => rfl
  | some pools =>
    have hsorted := h pools hlist
    simp only [Option.map_some, Function.comp_apply, Option.some.injEq]
    split
    · next i hi =>
      obtain ⟨hlt, hval, -⟩ := List.idxOf?_eq_some_iff.1 hi
      have htier : config.liquidityTiers.reverse[i]? = some threshold :=
        hval ▸ List.getElem?_eq_getElem hlt
      have hbucket : (buckets config.preferredPools config.liquidityTiers.reverse 0 pools)[i]?
          = some (pools.filter (config.passes threshold)) :=
        getElem?_buckets (liquidityTiers_reverse_desc config) hsorted
          (fun i hi => absurd hi (Nat.not_lt_zero i)) htier
      rw [LiquidityIndex.denomPools, hbucket]
      rfl
    · rfl

theorem knows_build (lists : Dict Denom (List Pool)) (denom : Denom) :
    (LiquidityIndex.build lists config).knows denom = (lists.get? denom).isSome := by
  rw [LiquidityIndex.knows, Dict.contains, get?_byDenom_build, Option.isSome_map]

end

end SwapRouting
