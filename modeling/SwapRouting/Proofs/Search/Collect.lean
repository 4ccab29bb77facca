import Mathlib.Data.Finset.Dedup
import SwapRouting.Search

/-! How a search collects routes.

Routes are added one after the other until there are enough, and of the routes over one set of pools
only the first is taken. So what was found stays at the front, no set of pools occurs twice, and as long
as there is room no offered set of pools is missing. -/
namespace SwapRouting
set_option autoImplicit false

namespace Search

/-- Adds a route unless there are enough or one uses the same pools. -/
def addRoute (limit : Nat) (found : List CandidateRoute) (r : CandidateRoute) :
    List CandidateRoute :=
  if limit ≤ found.length then found
  else if found.any fun x => sameSet x.poolIds r.poolIds then found
  else found ++ [r]

section
variable {limit : Nat} {found rs : List CandidateRoute} {r : CandidateRoute}

theorem sameSet_iff {a b : List Nat} : sameSet a b ↔ a.toFinset = b.toFinset := by
  simp only [sameSet, Bool.and_eq_true, List.all_eq_true, List.contains_eq_mem, decide_eq_true_eq,
    Finset.ext_iff, List.mem_toFinset]
  exact ⟨fun h id => ⟨h.1 id, h.2 id⟩, fun h => ⟨fun id => (h id).1, fun id => (h id).2⟩⟩

theorem addRoute_of_full (h : limit ≤ found.length) : addRoute limit found r = found := if_pos h

theorem foldl_addRoute_of_full (h : limit ≤ found.length) :
    rs.foldl (addRoute limit) found = found := by
  induction rs with
  | nil => rfl
  | cons r rest ih => rw [List.foldl_cons, addRoute_of_full h, ih]

theorem prefix_addRoute : found <+: addRoute limit found r := by
  rw [addRoute]
  split
  · exact List.prefix_rfl
  · split
    · exact List.prefix_rfl
    · exact List.prefix_append found [r]

theorem prefix_foldl_addRoute : found <+: rs.foldl (addRoute limit) found := by
  induction rs generalizing found with
  | nil => exact List.prefix_rfl
  | cons r rest ih => exact prefix_addRoute.trans ih

theorem mem_addRoute {x : CandidateRoute} (h : x ∈ addRoute limit found r) : x ∈ found ∨ x = r := by
  rw [addRoute] at h
  split at h
  · exact Or.inl h
  · split at h
    · exact Or.inl h
    · simpa using h

theorem mem_foldl_addRoute {x : CandidateRoute} (h : x ∈ rs.foldl (addRoute limit) found) :
    x ∈ found ∨ x ∈ rs := by
  induction rs generalizing found with
  | nil => exact Or.inl h
  | cons r rest ih =>
    rcases ih h with h | h
    · rcases mem_addRoute h with h | rfl
      · exact Or.inl h
      · exact Or.inr (List.mem_cons_self ..)
    · exact Or.inr (List.mem_cons_of_mem _ h)

/-- Routes are only added at the end, and in the order in which they are offered. -/
theorem exists_sublist_foldl_addRoute (limit : Nat) (found rs : List CandidateRoute) :
    ∃ added, added.Sublist rs ∧ rs.foldl (addRoute limit) found = found ++ added := by
  induction rs generalizing found with
  | nil => exact ⟨[], List.Sublist.refl _, (List.append_nil found).symm⟩
  | cons r rest ih =>
    rw [List.foldl_cons, addRoute]
    split
    · obtain ⟨added, hsub, heq⟩ := ih found
      exact ⟨added, hsub.cons r, heq⟩
    · split
      · obtain ⟨added, hsub, heq⟩ := ih found
        exact ⟨added, hsub.cons r, heq⟩
      · obtain ⟨added, hsub, heq⟩ := ih (found ++ [r])
        refine ⟨r :: added, hsub.cons_cons r, ?_⟩
        rw [heq, List.append_assoc, List.singleton_append]

/-! ## A smaller limit -/

theorem addRoute_take {few many : Nat} (hle : few ≤ many) (found : List CandidateRoute)
    (r : CandidateRoute) :
    addRoute few (found.take few) r = (addRoute many found r).take few := by
  by_cases hfull : few ≤ found.length
  · -- the smaller collection is full, and what comes after it does not matter
    have hlen : few ≤ (found.take few).length := by rw [List.length_take, Nat.min_eq_left hfull]
    obtain ⟨added, hadded⟩ : found <+: addRoute many found r := prefix_addRoute
    rw [addRoute_of_full hlen, ← hadded, List.take_append_of_le_length hfull]
  · have hroom : found.length < few := Nat.not_le.1 hfull
    rw [List.take_of_length_le hroom.le, addRoute, addRoute, if_neg hfull,
      if_neg (Nat.not_le.2 (hroom.trans_le hle))]
    split
    · exact (List.take_of_length_le hroom.le).symm
    · refine (List.take_of_length_le ?_).symm
      rw [List.length_append, List.length_singleton]
      exact hroom

/-- A smaller limit keeps the first routes of what a larger one collects. -/
theorem foldl_addRoute_take {few many : Nat} (hle : few ≤ many) (found rs : List CandidateRoute) :
    rs.foldl (addRoute few) (found.take few) = (rs.foldl (addRoute many) found).take few := by
  induction rs generalizing found with
  | nil => rfl
  | cons r rest ih => rw [List.foldl_cons, List.foldl_cons, addRoute_take hle, ih]

/-! ## Sets of pools -/

/-- The sets of pools of these routes, one for each route. -/
def poolSets (routes : List CandidateRoute) : List (Finset Nat) := routes.map fun r => r.poolIds.toFinset

/-- A collection of routes: not more than there may be, and none over the pools of another one. -/
structure Collected (limit : Nat) (found : List CandidateRoute) : Prop where
  length_le : found.length ≤ limit
  nodup : (poolSets found).Nodup

theorem Collected.addRoute (h : Collected limit found) : Collected limit (addRoute limit found r) := by
  rw [Search.addRoute]
  split
  · exact h
  · next hlen =>
    split
    · exact h
    · next hnew =>
      constructor
      · rw [List.length_append, List.length_singleton]
        omega
      · rw [poolSets, List.map_append]
        refine h.nodup.append (List.nodup_singleton _) ?_
        intro s hs hr
        obtain ⟨x, hx, rfl⟩ := List.mem_map.1 hs
        refine hnew (List.any_eq_true.2 ⟨x, hx, ?_⟩)
        exact sameSet_iff.2 (List.mem_singleton.1 hr)

theorem Collected.foldl_addRoute (h : Collected limit found) :
    Collected limit (rs.foldl (Search.addRoute limit) found) := by
  induction rs generalizing found with
  | nil => exact h
  | cons r rest ih => exact ih h.addRoute

theorem mem_poolSets_addRoute (h : (addRoute limit found r).length < limit) :
    r.poolIds.toFinset ∈ poolSets (addRoute limit found r) := by
  rw [addRoute] at h ⊢
  split
  · next hfull =>
    rw [if_pos hfull] at h
    omega
  · split
    · next hany =>
      obtain ⟨x, hx, hsame⟩ := List.any_eq_true.1 hany
      rw [← sameSet_iff.1 hsame]
      exact List.mem_map_of_mem hx
    · exact List.mem_map_of_mem (List.mem_append_right _ (List.mem_singleton_self r))

/-- While there is room for routes, every offered set of pools is found. -/
theorem mem_poolSets_foldl_addRoute (hr : r ∈ rs)
    (h : (rs.foldl (addRoute limit) found).length < limit) :
    r.poolIds.toFinset ∈ poolSets (rs.foldl (addRoute limit) found) := by
  induction rs generalizing found with
  | nil => cases hr
  | cons x rest ih =>
    rcases List.mem_cons.1 hr with rfl | hr
    · have hpre : addRoute limit found r <+: rest.foldl (addRoute limit) (addRoute limit found r) :=
        prefix_foldl_addRoute
      have hroom : (addRoute limit found r).length < limit := hpre.length_le.trans_lt h
      exact (hpre.map _).subset (mem_poolSets_addRoute hroom)
    · exact ih hr h

theorem foldl_addRoute_ne_nil (hlimit : 0 < limit) (hrs : rs ≠ []) :
    rs.foldl (addRoute limit) [] ≠ [] := by
  cases rs with
  | nil => exact absurd rfl hrs
  | cons r rest =>
    have hone : addRoute limit [] r = [r] := by
      rw [addRoute, if_neg (show ¬ limit ≤ [].length from Nat.not_le.2 hlimit)]
      rfl
    have hpre : [r] <+: (r :: rest).foldl (addRoute limit) [] := by
      rw [List.foldl_cons, hone]
      exact prefix_foldl_addRoute
    intro hnil
    rw [hnil] at hpre
    exact absurd (List.prefix_nil.1 hpre) (List.cons_ne_nil r [])

end

end Search

end SwapRouting
