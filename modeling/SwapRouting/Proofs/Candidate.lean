import Mathlib.Data.List.Nodup
import SwapRouting.Candidate

/-! Where candidate routes lead, from either end. -/
namespace SwapRouting
set_option autoImplicit false

/-- Routes that end in a denom and repeat no pool. -/
def LeadTo (denom : Denom) (routes : List CandidateRoute) : Prop :=
  ∀ r ∈ routes, r.denomOut? = some denom ∧ r.poolIds.Nodup

/-- Routes that lead to a denom, no pool of which occurs twice in all of them. -/
structure Apart (denom : Denom) (routes : List CandidateRoute) : Prop where
  lead : LeadTo denom routes
  nodup : (routes.flatMap CandidateRoute.poolIds).Nodup

/-! ## Routes from the other end -/

namespace CandidateRoute

theorem length_poolIds (r : CandidateRoute) : r.poolIds.length = r.length := List.length_map ..

theorem map_pool_backwards (denomIn : Denom) (hops : List Hop) :
    (backwards denomIn hops).map (·.pool) = (hops.map (·.pool)).reverse := by
  induction hops generalizing denomIn with
  | nil => rfl
  | cons h rest ih =>
    rw [backwards, List.map_append, ih, List.map_cons (l := rest), List.reverse_cons]
    rfl

theorem nodup_reversed {r : CandidateRoute} (h : r.poolIds.Nodup) (denomIn : Denom) :
    (r.reversed denomIn).poolIds.Nodup := by
  rw [poolIds, reversed, map_pool_backwards, List.nodup_reverse]
  exact h

theorem denomOut?_reversed {r : CandidateRoute} {d : Denom} (h : r.denomOut? = some d)
    (denomIn : Denom) : (r.reversed denomIn).denomOut? = some denomIn := by
  rw [denomOut?, reversed]
  cases hhops : r.hops with
  | nil =>
    rw [denomOut?, hhops] at h
    cases h
  | cons x rest =>
    rw [backwards, List.getLast?_concat]
    rfl

end CandidateRoute

theorem LeadTo.reversed {denom : Denom} {routes : List CandidateRoute} (h : LeadTo denom routes)
    (denomIn : Denom) : LeadTo denomIn (routes.map fun r => r.reversed denomIn) := by
  intro r hr
  obtain ⟨x, hx, rfl⟩ := List.mem_map.1 hr
  obtain ⟨hend, hnodup⟩ := h x hx
  exact ⟨CandidateRoute.denomOut?_reversed hend denomIn, CandidateRoute.nodup_reversed hnodup denomIn⟩

end SwapRouting
