import Mathlib.Data.List.Pairwise
import Mathlib.Data.List.Sort
import SwapRouting.Proofs.Split.Ranking

/-! Which routes stay when those that share a pool with a better one are dropped.

What stays is a choice of places in the ranking: no two of the chosen routes share a pool, and every
route that is not chosen shares one with a chosen route before it. A ranking has one such choice only,
since whether a place is chosen is settled by the places before it. -/
namespace SwapRouting
set_option autoImplicit false

/-- No pool is on both routes. -/
def QuotedRoute.Apart (a b : QuotedRoute) : Prop :=
  List.Disjoint a.route.poolIds b.route.poolIds

theorem QuotedRoute.Apart.symm {a b : QuotedRoute} (h : a.Apart b) : b.Apart a :=
  List.disjoint_symm h

/-- Quotes of a ranking, with their places in it, that are chosen greedily. Places tell apart quotes that
occur twice. -/
structure GreedyChoice (ranked : List QuotedRoute) (kept : List (QuotedRoute × Nat)) : Prop where
  sublist : kept.Sublist ranked.zipIdx
  apart : kept.Pairwise fun a b => a.1.Apart b.1
  covers : ∀ p ∈ ranked.zipIdx, p ∉ kept → ∃ k ∈ kept, k.2 < p.2 ∧ ¬ k.1.Apart p.1

/-! ## What stays is a greedy choice -/

/-- The places of the quotes that stay. Each other quote has a pool that is used from the start, or one of
a quote that stays before it. -/
theorem exists_places_keepDisjoint (used : List Nat) (qs : List QuotedRoute) (start : Nat) :
    ∃ kept : List (QuotedRoute × Nat), kept.Sublist (qs.zipIdx start) ∧
      kept.map Prod.fst = keepDisjoint used qs ∧
      ∀ p ∈ qs.zipIdx start, p ∉ kept →
        ¬ List.Disjoint p.1.route.poolIds used ∨ ∃ k ∈ kept, k.2 < p.2 ∧ ¬ k.1.Apart p.1 := by
  induction qs generalizing used start with
  | nil => exact ⟨[], List.Sublist.refl _, rfl, fun p hp => absurd hp List.not_mem_nil⟩
  | cons q rest ih =>
    rw [List.zipIdx_cons, keepDisjoint]
    split
    · next hused =>
      obtain ⟨kept, hsub, hmap, hcovers⟩ := ih used (start + 1)
      refine ⟨kept, hsub.cons _, hmap, fun p hp hnot => ?_⟩
      rcases List.mem_cons.1 hp with rfl | hp
      · exact .inl (any_contains_iff.1 hused)
      · exact hcovers p hp hnot
    · obtain ⟨kept, hsub, hmap, hcovers⟩ := ih (q.route.poolIds ++ used) (start + 1)
      refine ⟨(q, start) :: kept, hsub.cons_cons _, by rw [List.map_cons, hmap], fun p hp hnot => ?_⟩
      rw [List.mem_cons, not_or] at hnot
      obtain ⟨hne, hnot⟩ := hnot
      have hp := (List.mem_cons.1 hp).resolve_left hne
      rcases hcovers p hp hnot with hmeets | ⟨k, hk, hbefore, hmeets⟩
      · -- A pool that is used by now is on `q`, or was used before `q`.
        rw [List.disjoint_append_right, not_and_or] at hmeets
        rcases hmeets with hmeets | hmeets
        · have hlt : start < p.2 := List.le_snd_of_mem_zipIdx hp
          exact .inr ⟨(q, start), List.mem_cons_self .., hlt, fun h => hmeets h.symm⟩
        · exact .inl hmeets
      · exact .inr ⟨k, List.mem_cons_of_mem _ hk, hbefore, hmeets⟩

theorem exists_greedyChoice (ranked : List QuotedRoute) :
    ∃ kept, GreedyChoice ranked kept ∧ kept.map Prod.fst = dropSharedPools ranked := by
  obtain ⟨kept, hsub, hmap, hcovers⟩ := exists_places_keepDisjoint [] ranked 0
  have hapart := keepDisjoint_pairwise [] ranked
  rw [← hmap, List.pairwise_map] at hapart
  refine ⟨kept, ⟨hsub, hapart, fun p hp hnot => ?_⟩, hmap⟩
  rcases hcovers p hp hnot with hmeets | hbefore
  · exact absurd (List.disjoint_nil_right _) hmeets
  · exact hbefore

/-! ## There is one greedy choice -/

section
variable {ranked : List QuotedRoute} {a b : List (QuotedRoute × Nat)}

theorem GreedyChoice.subset (ha : GreedyChoice ranked a) (hb : GreedyChoice ranked b) {place : Nat} :
    ∀ q, (q, place) ∈ a → (q, place) ∈ b := by
  induction place using Nat.strong_induction_on generalizing a b with
  | _ place ih =>
    intro q hq
    -- A quote of `a` that is not in `b` shares a pool with an earlier quote of `b`, and `a` has it too.
    by_contra hnot
    obtain ⟨⟨k, before⟩, hk, hlt, hmeets⟩ := hb.covers _ (ha.sublist.subset hq) hnot
    have hkept : (k, before) ∈ a := ih before hlt hb ha k hk
    have hne : (k, before) ≠ (q, place) := fun h => hlt.ne (congrArg Prod.snd h)
    have hsymm : Std.Symm fun x y : QuotedRoute × Nat => x.1.Apart y.1 := ⟨fun _ _ h => h.symm⟩
    exact hmeets (ha.apart.forall hkept hq hne)

theorem GreedyChoice.places_lt (h : GreedyChoice ranked a) : a.Pairwise fun x y => x.2 < y.2 := by
  refine List.Pairwise.sublist h.sublist (List.pairwise_map.1 ?_)
  rw [List.zipIdx_map_snd]
  exact List.pairwise_lt_range'

theorem GreedyChoice.eq (ha : GreedyChoice ranked a) (hb : GreedyChoice ranked b) : a = b := by
  have hirrefl : Std.Irrefl fun x y : QuotedRoute × Nat => x.2 < y.2 := ⟨fun _ => lt_irrefl _⟩
  have hantisymm : Std.Antisymm fun x y : QuotedRoute × Nat => x.2 < y.2 :=
    ⟨fun _ _ h h' => absurd h h'.not_gt⟩
  exact ha.places_lt.eq_of_mem_iff hb.places_lt fun p => ⟨ha.subset hb p.1, hb.subset ha p.1⟩

end

/-! ## Dropping twice -/

theorem keepDisjoint_eq_self {used : List Nat} {qs : List QuotedRoute}
    (hfree : ∀ q ∈ qs, List.Disjoint q.route.poolIds used)
    (hapart : qs.Pairwise QuotedRoute.Apart) : keepDisjoint used qs = qs := by
  induction qs generalizing used with
  | nil => rfl
  | cons q rest ih =>
    obtain ⟨hq, hrest⟩ := List.forall_mem_cons.1 hfree
    obtain ⟨hall, hapart⟩ := List.pairwise_cons.1 hapart
    rw [keepDisjoint, if_neg fun hused => any_contains_iff.1 hused hq, ih ?_ hapart]
    intro x hx
    exact List.disjoint_append_right.2 ⟨(hall x hx).symm, hrest x hx⟩

theorem dropSharedPools_idem (ranked : List QuotedRoute) :
    dropSharedPools (dropSharedPools ranked) = dropSharedPools ranked :=
  keepDisjoint_eq_self (fun _ _ => List.disjoint_nil_right _) (keepDisjoint_pairwise [] ranked)

/-- The routes that stay are the greedy choice from the ranking. The first route is among them, and
dropping routes once more changes nothing. -/
theorem dropSharedPools_greedy (ranked : List QuotedRoute) :
    (∃ kept, GreedyChoice ranked kept ∧ kept.map Prod.fst = dropSharedPools ranked ∧
      ∀ other, GreedyChoice ranked other → other = kept) ∧
    (dropSharedPools ranked).head? = ranked.head? ∧
    dropSharedPools (dropSharedPools ranked) = dropSharedPools ranked := by
  refine ⟨?_, ?_, dropSharedPools_idem ranked⟩
  · obtain ⟨kept, hkept, hmap⟩ := exists_greedyChoice ranked
    exact ⟨kept, hkept, hmap, fun other hother => hother.eq hkept⟩
  · cases ranked with
    | nil => rfl
    | cons q rest =>
      obtain ⟨others, hothers⟩ := dropSharedPools_cons q rest
      rw [hothers, List.head?_cons, List.head?_cons]

end SwapRouting
