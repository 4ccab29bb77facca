import Mathlib.Data.List.Induction
import SwapRouting.Proofs.TakerFee
import SwapRouting.Snapshot

/-! Canonical order books.

Filing the order books one after the other leaves the deepest one under every pair, and of equally deep
ones the one with the smallest identifier. Where no two pools have one identifier this is a single
pool, which does not depend on the order they were filed in. -/
namespace SwapRouting
set_option autoImplicit false

/-- Whether a pool has at least the liquidity of another one, and of equal ones no larger identifier. -/
def Pool.Outranks (p q : Pool) : Prop :=
  q.liquidityCap < p.liquidityCap ∨ (p.liquidityCap = q.liquidityCap ∧ p.id ≤ q.id)

namespace Pool.Outranks

variable {p q r : Pool}

theorem refl (p : Pool) : p.Outranks p := Or.inr ⟨rfl, le_refl _⟩

theorem trans (hpq : p.Outranks q) (hqr : q.Outranks r) : p.Outranks r := by
  unfold Outranks at *
  omega

theorem id_eq (hpq : p.Outranks q) (hqp : q.Outranks p) : p.id = q.id := by
  unfold Outranks at *
  omega

end Pool.Outranks

namespace PoolSnapshot

theorem outranks_of_deeper {p q : Pool} (h : deeper p q = true) : p.Outranks q := by
  unfold Pool.Outranks
  simp only [deeper, Bool.or_eq_true, Bool.and_eq_true, decide_eq_true_eq, beq_iff_eq] at h
  omega

theorem outranks_of_not_deeper {p q : Pool} (h : ¬ deeper p q = true) : q.Outranks p := by
  unfold Pool.Outranks
  simp only [deeper, Bool.or_eq_true, Bool.and_eq_true, decide_eq_true_eq, beq_iff_eq] at h
  omega

/-- The order book that the others of its pair do not outrank. -/
structure Deepest (pools : List Pool) (pair : DenomPair) (p : Pool) : Prop where
  mem : p ∈ pools
  trades : orderbookPair? p = some pair
  outranks : ∀ q ∈ pools, orderbookPair? q = some pair → p.Outranks q

theorem Deepest.concat {pools : List Pool} {pair : DenomPair} {p q : Pool} (h : Deepest pools pair p)
    (hq : orderbookPair? q = some pair → p.Outranks q) : Deepest (pools ++ [q]) pair p where
  mem := List.mem_append_left _ h.mem
  trades := h.trades
  outranks := by
    intro r hr hpair
    rcases List.mem_append.1 hr with hr | hr
    · exact h.outranks r hr hpair
    · rw [List.mem_singleton.1 hr] at hpair ⊢
      exact hq hpair

/-- A pool that outranks the order books of its pair so far is the deepest one. -/
theorem deepest_concat {pools : List Pool} {pair : DenomPair} {q : Pool}
    (hpair : orderbookPair? q = some pair)
    (hq : ∀ r ∈ pools, orderbookPair? r = some pair → q.Outranks r) : Deepest (pools ++ [q]) pair q where
  mem := List.mem_append_right _ (List.mem_singleton_self q)
  trades := hpair
  outranks := by
    intro r hr hr'
    rcases List.mem_append.1 hr with hr | hr
    · exact hq r hr hr'
    · rw [List.mem_singleton.1 hr]
      exact Pool.Outranks.refl q

theorem Deepest.of_perm {pools pools' : List Pool} (hperm : pools.Perm pools') {pair : DenomPair}
    {p : Pool} (h : Deepest pools pair p) : Deepest pools' pair p where
  mem := hperm.mem_iff.1 h.mem
  trades := h.trades
  outranks := fun q hq => h.outranks q (hperm.mem_iff.2 hq)

/-- What filing these pools has left: the deepest order book of every pair that has one. -/
structure Filed (pools : List Pool) (best : Dict DenomPair Pool) : Prop where
  deepest : ∀ {pair p}, best.get? pair = some p → Deepest pools pair p
  filed : ∀ {pair}, best.get? pair = none → ∀ p ∈ pools, orderbookPair? p ≠ some pair

theorem Filed.keep {pools : List Pool} {best : Dict DenomPair Pool} (h : Filed pools best) {p : Pool}
    (hkeep : ∀ pair, orderbookPair? p = some pair → ∃ q, best.get? pair = some q ∧ q.Outranks p) :
    Filed (pools ++ [p]) best where
  deepest := by
    intro pair q hget
    refine (h.deepest hget).concat fun hpair => ?_
    obtain ⟨q', hget', hrank⟩ := hkeep pair hpair
    rw [hget, Option.some.injEq] at hget'
    exact hget' ▸ hrank
  filed := by
    intro pair hget q hq hpair
    rcases List.mem_append.1 hq with hq | hq
    · exact h.filed hget q hq hpair
    · obtain ⟨q', hget', -⟩ := hkeep pair (List.mem_singleton.1 hq ▸ hpair)
      rw [hget] at hget'
      cases hget'

theorem Filed.insert {pools : List Pool} {best : Dict DenomPair Pool} (h : Filed pools best) {p : Pool}
    {pair : DenomPair} (hpair : orderbookPair? p = some pair)
    (hrank : ∀ r ∈ pools, orderbookPair? r = some pair → p.Outranks r) :
    Filed (pools ++ [p]) (best.insert pair p) where
  deepest := by
    intro pair' q hget
    rw [Dict.get?_insert] at hget
    split at hget
    · next hsame =>
      rw [Option.some.injEq] at hget
      rw [← hget, ← hsame]
      exact deepest_concat hpair hrank
    · next hother =>
      refine (h.deepest hget).concat fun hpair' => absurd ?_ hother
      rw [hpair, Option.some.injEq] at hpair'
      exact hpair'
  filed := by
    intro pair' hget q hq hpair'
    rw [Dict.get?_insert] at hget
    split at hget
    · cases hget
    · next hother =>
      rcases List.mem_append.1 hq with hq | hq
      · exact h.filed hget q hq hpair'
      · rw [List.mem_singleton.1 hq, hpair, Option.some.injEq] at hpair'
        exact hother hpair'

theorem filed_fileOrderbook {pools : List Pool} {best : Dict DenomPair Pool} (h : Filed pools best)
    (p : Pool) : Filed (pools ++ [p]) (fileOrderbook best p) := by
  unfold fileOrderbook
  cases hpair : orderbookPair? p with
  | none =>
    apply h.keep
    intro pair hsome
    rw [hpair] at hsome
    cases hsome
  | some pair =>
    simp only
    cases hget : best.get? pair with
    | none =>
      apply h.insert hpair
      intro q hq hpair'
      exact absurd hpair' (h.filed hget q hq)
    | some q =>
      simp only
      by_cases hdeep : deeper p q = true
      · rw [if_pos hdeep]
        apply h.insert hpair
        intro r hr hpair'
        exact (outranks_of_deeper hdeep).trans ((h.deepest hget).outranks r hr hpair')
      · rw [if_neg hdeep]
        apply h.keep
        intro pair' hpair'
        rw [hpair, Option.some.injEq] at hpair'
        exact ⟨q, hpair' ▸ hget, outranks_of_not_deeper hdeep⟩

theorem filed_deepestOrderbooks (pools : List Pool) : Filed pools (deepestOrderbooks pools) := by
  induction pools using List.reverseRecOn with
  | nil =>
    constructor
    · intro pair p hget
      cases hget
    · intro pair _ p hp
      cases hp
  | append_singleton pools p ih =>
    unfold deepestOrderbooks
    rw [List.foldl_append]
    exact filed_fileOrderbook ih p

theorem ascending_deepestOrderbooks (pools : List Pool) : (deepestOrderbooks pools).Ascending := by
  induction pools using List.reverseRecOn with
  | nil => exact List.Pairwise.nil
  | append_singleton pools p ih =>
    unfold deepestOrderbooks at ih ⊢
    rw [List.foldl_append, List.foldl_cons, List.foldl_nil]
    unfold fileOrderbook
    split
    · exact ih
    · split
      · split
        · exact ih.insert _ _
        · exact ih
      · exact ih.insert _ _

section
variable {pools : List Pool}

/-- Pools with identifiers of their own are equal where each outranks the other. -/
theorem Deepest.unique (hids : (pools.map fun p => p.id).Nodup) {pair : DenomPair} {p q : Pool}
    (hp : Deepest pools pair p) (hq : Deepest pools pair q) : p = q := by
  have hid : p.id = q.id := (hp.outranks q hq.mem hq.trades).id_eq (hq.outranks p hp.mem hp.trades)
  exact List.inj_on_of_nodup_map hids hp.mem hq.mem hid

theorem exists_deepest {p : Pool} (hp : p ∈ pools) {pair : DenomPair}
    (hpair : orderbookPair? p = some pair) : ∃ q, Deepest pools pair q := by
  cases hget : (deepestOrderbooks pools).get? pair with
  | none => exact absurd hpair ((filed_deepestOrderbooks pools).filed hget p hp)
  | some q => exact ⟨q, (filed_deepestOrderbooks pools).deepest hget⟩

theorem mem_deepestOrderbooks_iff (hids : (pools.map fun p => p.id).Nodup) {p : Pool} :
    p ∈ (deepestOrderbooks pools).values ↔ ∃ pair, Deepest pools pair p := by
  rw [(ascending_deepestOrderbooks pools).mem_values_iff]
  constructor
  · rintro ⟨pair, hget⟩
    exact ⟨pair, (filed_deepestOrderbooks pools).deepest hget⟩
  · rintro ⟨pair, hp⟩
    refine ⟨pair, ?_⟩
    cases hget : (deepestOrderbooks pools).get? pair with
    | none => exact absurd hp.trades ((filed_deepestOrderbooks pools).filed hget p hp.mem)
    | some q => rw [((filed_deepestOrderbooks pools).deepest hget).unique hids hp]

theorem mem_deepestOrderbooks_of_perm {pools' : List Pool} (hperm : pools.Perm pools')
    (hids : (pools.map fun p => p.id).Nodup) {p : Pool} :
    p ∈ (deepestOrderbooks pools').values ↔ p ∈ (deepestOrderbooks pools).values := by
  have hids' : (pools'.map fun p => p.id).Nodup := (hperm.map _).nodup_iff.1 hids
  rw [mem_deepestOrderbooks_iff hids, mem_deepestOrderbooks_iff hids']
  constructor
  · rintro ⟨pair, hp⟩
    exact ⟨pair, hp.of_perm hperm.symm⟩
  · rintro ⟨pair, hp⟩
    exact ⟨pair, hp.of_perm hperm⟩

end

end PoolSnapshot

end SwapRouting
