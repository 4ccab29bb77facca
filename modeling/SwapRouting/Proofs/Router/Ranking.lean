import Mathlib.Data.List.Flatten
import SwapRouting.Proofs.Cache
import SwapRouting.Proofs.Route.Attach
import SwapRouting.Proofs.Search
import SwapRouting.Proofs.Split.Ranking
import SwapRouting.Router.Quoting

/-! What a request ranks, and what it leaves in the caches.

Candidates come from a search or from a cache, ranked routes from candidates or from a cache, and all of
them are attached to the current pools before they are ranked. As long as the caches are sound, every
ranked route leads from the one denom to the other, no pool occurs twice, and the caches stay sound. -/
namespace SwapRouting
set_option autoImplicit false

namespace Router

variable {r : Router} {now : Nat} {ctx : Context} {denomIn denomOut : Denom} {o : QuoteOptions}
variable {q : QuoteRequest} {m : Memory} {routes : CandidateRoutes} {qs : List QuotedRoute}

/-! ## Candidates -/

theorem caches_searchRoutes (r : Router) (ctx : Context) (denomIn denomOut : Denom)
    (o : QuoteOptions) (m : Memory) :
    (r.searchRoutes ctx denomIn denomOut o m).2.caches = m.caches := by
  have hcount : (if denomIn = denomOut then m else { m with searches := m.searches + 1 }).caches
      = m.caches := by
    split <;> rfl
  rw [searchRoutes]
  simp only
  split
  · exact hcount
  · split
    · exact hcount
    · exact hcount

theorem searchRoutes_eq_ok (h : (r.searchRoutes ctx denomIn denomOut o m).1 = .ok routes) :
    denomIn ≠ denomOut ∧ LeadTo denomOut routes.routes := by
  rw [searchRoutes] at h
  simp only at h
  split at h
  · cases h
  · next found hfound =>
    split at h
    · cases h
    · rw [Except.ok.injEq] at h
      rw [← h]
      exact findRoutes_leadTo hfound

theorem sound_readCandidates (hm : m.caches.Sound) (now : Nat) (denomIn denomOut : Denom) :
    (readCandidates now denomIn denomOut m).2.caches.Sound :=
  hm.afterCandidates now denomIn denomOut

theorem readCandidates_eq_some (hm : m.caches.Sound)
    (h : (readCandidates now denomIn denomOut m).1 = some routes) :
    LeadTo denomOut routes.routes := hm.candidates? h

theorem sound_candidates (r : Router) (hm : m.caches.Sound) (now : Nat) (ctx : Context)
    (denomIn denomOut : Denom) (o : QuoteOptions) :
    (r.candidates now ctx denomIn denomOut o m).2.caches.Sound := by
  rw [candidates]
  split
  · rw [caches_searchRoutes]
    exact hm
  · have hread := sound_readCandidates hm now denomIn denomOut
    simp only
    split
    · exact hread
    · split
      · rw [caches_searchRoutes]
        exact hread
      · next found hfound =>
        obtain ⟨hne, hlead⟩ := searchRoutes_eq_ok hfound
        simp only [caches_searchRoutes]
        exact hread.setCandidates _ now hne hlead

theorem candidates_eq_ok (hm : m.caches.Sound)
    (h : (r.candidates now ctx denomIn denomOut o m).1 = .ok routes) :
    LeadTo denomOut routes.routes := by
  rw [candidates] at h
  split at h
  · exact (searchRoutes_eq_ok h).2
  · simp only at h
    split at h
    · next hfound =>
      rw [Except.ok.injEq] at h
      exact h ▸ readCandidates_eq_some hm hfound
    · split at h
      · cases h
      · next found hfound =>
        rw [Except.ok.injEq] at h
        exact h ▸ (searchRoutes_eq_ok hfound).2

/-! ## Attached routes -/

/-- A route attached to the current pools that leads from one denom to the other. -/
structure Leads (r : Router) (denomIn denomOut : Denom) (route : Route) : Prop where
  attached : r.market.attach denomIn route.candidate = .ok route
  arrives : route.denomOut? = some denomOut

theorem leads_of_attach (hkeyed : r.generation.snapshot.Keyed) {c : CandidateRoute} {route : Route}
    (h : r.market.attach denomIn c = .ok route) (hend : c.denomOut? = some denomOut) :
    r.Leads denomIn denomOut route := by
  have hcandidate : route.candidate = c := Market.candidate_of_attach_eq_ok hkeyed h
  refine ⟨by rw [hcandidate]; exact h, ?_⟩
  rw [← Route.denomOut?_candidate, hcandidate]
  exact hend

theorem Leads.connects (hkeyed : r.generation.snapshot.Keyed) {route : Route}
    (h : r.Leads denomIn denomOut route) :
    Connects r.generation.snapshot denomIn denomOut route.hops := by
  have hend : route.candidate.denomOut? = some denomOut := by
    rw [Route.denomOut?_candidate]
    exact h.arrives
  exact Market.connects_of_attach_eq_ok hkeyed h.attached hend

theorem leads_of_mem_attachAll (hkeyed : r.generation.snapshot.Keyed) {cs : List CandidateRoute}
    (hlead : LeadTo denomOut cs) {route : Route} (h : route ∈ (attachAll r.market denomIn cs).1) :
    r.Leads denomIn denomOut route ∧ route.poolIds.Nodup := by
  obtain ⟨c, hc, hattach⟩ := mem_attachAll.1 h
  obtain ⟨hend, hnodup⟩ := hlead c hc
  have hcandidate : route.candidate = c := Market.candidate_of_attach_eq_ok hkeyed hattach
  refine ⟨leads_of_attach hkeyed hattach hend, ?_⟩
  rw [← Route.poolIds_candidate, hcandidate]
  exact hnodup

theorem flatMap_poolIds_attachAll (hkeyed : r.generation.snapshot.Keyed) (denomIn : Denom)
    (cs : List CandidateRoute) :
    ((attachAll r.market denomIn cs).1.flatMap Route.poolIds).Sublist
      (cs.flatMap CandidateRoute.poolIds) := by
  induction cs with
  | nil => exact List.Sublist.refl _
  | cons c rest ih =>
    rw [attachAll, List.flatMap_cons]
    cases h : r.market.attach denomIn c with
    | error e => exact ih.trans (List.sublist_append_right _ _)
    | ok route =>
      have hcandidate : route.candidate = c := Market.candidate_of_attach_eq_ok hkeyed h
      rw [List.flatMap_cons, ← Route.poolIds_candidate, hcandidate]
      exact (List.Sublist.refl _).append ih

/-! ## Ranked routes -/

/-- What the ranked routes of a request satisfy on the current pools. -/
structure Ranks (r : Router) (q : QuoteRequest) (qs : List QuotedRoute) : Prop where
  ranking : ∃ routes, RankingOf r.config.preferredPools q.order routes qs
  leads : ∀ s ∈ qs, r.Leads q.denomIn q.denomOut s.route
  apart : (qs.flatMap fun s => s.route.poolIds).Nodup

theorem apart_of_ranks (h : r.Ranks q qs) :
    Apart q.denomOut (qs.map fun s => s.route.candidate) := by
  have hpools : (qs.map fun s => s.route.candidate).flatMap CandidateRoute.poolIds
      = qs.flatMap fun s => s.route.poolIds := by
    rw [List.flatMap_map]
    congr 1
    funext s
    exact s.route.poolIds_candidate
  refine ⟨?_, hpools ▸ h.apart⟩
  intro c hc
  obtain ⟨s, hs, rfl⟩ := List.mem_map.1 hc
  refine ⟨?_, ?_⟩
  · rw [Route.denomOut?_candidate]
    exact (h.leads s hs).arrives
  · rw [Route.poolIds_candidate]
    exact (List.nodup_flatMap.1 h.apart).1 s hs

theorem ranks_of_kept (hkeyed : r.generation.snapshot.Keyed) {kept : List CandidateRoute}
    (hkept : Apart q.denomOut kept)
    (h : (r.rankCandidates ctx q (attachAll r.market q.denomIn kept).1 m).1 = .ok qs) :
    r.Ranks q qs := by
  have hranking := rankRoutes_spec h
  refine ⟨⟨_, hranking⟩, ?_, ?_⟩
  · intro s hs
    exact (leads_of_mem_attachAll hkeyed hkept.lead (hranking.mem_routes hs)).1
  · obtain ⟨some, hperm, hsub⟩ := hranking.routes
    have hall := hkept.nodup.sublist (flatMap_poolIds_attachAll hkeyed q.denomIn kept)
    have hsome := hall.sublist (hsub.flatMap Route.poolIds)
    have hqs := (hperm.flatMap_right Route.poolIds).nodup_iff.2 hsome
    rw [List.flatMap_map] at hqs
    exact hqs

theorem ranks_of_fresh (hkeyed : r.generation.snapshot.Keyed) {found : List CandidateRoute}
    (hfound : LeadTo q.denomOut found)
    (h : (r.rankCandidates ctx q (attachAll r.market q.denomIn found).1 m).1 = .ok qs) :
    r.Ranks q (dropSharedPools qs) := by
  have hranking := rankRoutes_spec h
  have hall : ∀ s ∈ qs, r.Leads q.denomIn q.denomOut s.route ∧ s.route.poolIds.Nodup :=
    fun s hs => leads_of_mem_attachAll hkeyed hfound (hranking.mem_routes hs)
  refine ⟨⟨_, hranking.dropSharedPools⟩, ?_, nodup_dropSharedPools fun s hs => (hall s hs).2⟩
  intro s hs
  exact (hall s ((dropSharedPools_sublist qs).subset hs)).1

theorem sound_rankKept (r : Router) (hm : m.caches.Sound) (now : Nat) (ctx : Context)
    (q : QuoteRequest) : (r.rankKept now ctx q m).2.caches.Sound := by
  have hread := hm.afterRanked r.config.cachePolicy now q.rankedKey
  rw [rankKept]
  simp only
  split
  · exact hread
  · split
    · exact hread
    · exact hread

theorem rankKept_eq_some (hkeyed : r.generation.snapshot.Keyed) (hm : m.caches.Sound)
    (h : (r.rankKept now ctx q m).1 = some (.ok qs)) : r.Ranks q qs := by
  rw [rankKept] at h
  simp only at h
  split at h
  · cases h
  · next kept hkept =>
    split at h
    · cases h
    · rw [Option.some.injEq] at h
      exact ranks_of_kept hkeyed (hm.ranked? hkept) h

theorem rankFresh_spec (hkeyed : r.generation.snapshot.Keyed) (hm : m.caches.Sound) (now : Nat)
    (ctx : Context) (q : QuoteRequest) :
    (r.rankFresh now ctx q m).2.caches.Sound ∧
      ∀ qs, (r.rankFresh now ctx q m).1 = .ok qs → r.Ranks q qs := by
  have hsound := sound_candidates r hm now ctx q.denomIn q.denomOut q.options
  rw [rankFresh]
  simp only
  split
  · exact ⟨hsound, nofun⟩
  · next found hfound =>
    split
    · exact ⟨hsound, nofun⟩
    · next ranked hranked =>
      have hranks := ranks_of_fresh hkeyed (candidates_eq_ok hm hfound) hranked
      refine ⟨?_, ?_⟩
      · split
        · exact hsound.setRanked r.config.cachePolicy now (k := q.rankedKey) (apart_of_ranks hranks)
        · exact hsound
      · intro qs hqs
        rw [Except.ok.injEq] at hqs
        exact hqs ▸ hranks

/-- Whatever is cached, the ranked routes of a request serve it, and the caches stay sound. -/
theorem rankRequest_spec (hkeyed : r.generation.snapshot.Keyed) (hm : m.caches.Sound) (now : Nat)
    (ctx : Context) (q : QuoteRequest) :
    (r.rankRequest now ctx q m).2.caches.Sound ∧
      ∀ qs, (r.rankRequest now ctx q m).1 = .ok qs → r.Ranks q qs := by
  rw [rankRequest]
  split
  · have hkept := sound_rankKept r hm now ctx q
    simp only
    split
    · next ranked hranked =>
      refine ⟨hkept, ?_⟩
      rintro qs rfl
      exact rankKept_eq_some hkeyed hm hranked
    · exact rankFresh_spec hkeyed hkept now ctx q
  · exact rankFresh_spec hkeyed hm now ctx q

end Router

end SwapRouting
