import SwapRouting.Proofs.Router.Ranking

/-! Ranking a request again.

What a request ranks depends on two cache entries and on nothing else that earlier requests left behind.
Ranking fills these entries, with candidates as they were found and with routes as they were ranked. Read
again, and attached and ranked again, they give the same ranking, so as long as nothing expires a request
that is repeated is ranked as before. -/
namespace SwapRouting
set_option autoImplicit false

/-- What a request finds in the caches. -/
structure Cached where
  candidates : Option CandidateRoutes
  ranked : Option (List CandidateRoute)

namespace Router

variable {r : Router} {now later : Nat} {ctx : Context} {q : QuoteRequest} {m m' : Memory}

/-! ## What is cached for a request -/

/-- The cached routes that a request reads; none where it reads no cache. -/
def cachedFor (r : Router) (now : Nat) (q : QuoteRequest) (c : RouteCaches) : Cached where
  candidates := if q.options.usesCache then c.candidates? now q.denomIn q.denomOut else none
  ranked := if r.usesRankedCache q then c.ranked? r.config.cachePolicy now q.rankedKey else none

/-- A look into the caches hides nothing from later requests. -/
theorem cachedFor_afterRanked (r : Router) (hle : now ≤ later) (q : QuoteRequest) (c : RouteCaches)
    (k : RankedKey) :
    r.cachedFor later q (c.afterRanked r.config.cachePolicy now k) = r.cachedFor later q c := by
  rw [RouteCaches.afterRanked]
  split
  · rw [cachedFor, cachedFor, RouteCaches.ranked?, RouteCaches.ranked?,
      ExpiringCache.get?_afterGet c.ranked hle]
    rfl
  · rfl

theorem cachedFor_afterCandidates (r : Router) (hle : now ≤ later) (q : QuoteRequest)
    (c : RouteCaches) (denomIn denomOut : Denom) :
    r.cachedFor later q (c.afterCandidates now denomIn denomOut) = r.cachedFor later q c := by
  rw [cachedFor, cachedFor, RouteCaches.candidates?, RouteCaches.candidates?,
    RouteCaches.afterCandidates, ExpiringCache.get?_afterGet c.candidates hle]
  rfl

/-- Candidates that were just stored are found as they are, unless they are not kept at all. -/
theorem cachedFor_setCandidates (r : Router) (now : Nat) (q : QuoteRequest) (c : RouteCaches)
    (p : CachePolicy) (routes : CandidateRoutes) :
    (r.cachedFor now q (c.setCandidates p now q.denomIn q.denomOut routes)).ranked
        = (r.cachedFor now q c).ranked ∧
      ((r.cachedFor now q (c.setCandidates p now q.denomIn q.denomOut routes)).candidates = none ∨
        (r.cachedFor now q (c.setCandidates p now q.denomIn q.denomOut routes)).candidates
          = some routes) := by
  refine ⟨rfl, ?_⟩
  rw [cachedFor, RouteCaches.candidates?, RouteCaches.setCandidates]
  simp only [ExpiringCache.get?_insert, if_true]
  split
  · split
    · refine Or.inr ?_
      rw [Option.map_some, StoredCandidates.seenFrom, if_pos rfl]
    · exact Or.inl rfl
  · exact Or.inl rfl

theorem rankedEnabled_of_usesRankedCache (h : r.usesRankedCache q = true) :
    r.config.cachePolicy.rankedEnabled = true := by
  rw [usesRankedCache, Bool.and_eq_true] at h
  exact h.2

theorem cachedFor_setRanked (huse : r.usesRankedCache q = true) (now : Nat) (c : RouteCaches)
    (routes : List CandidateRoute) :
    (r.cachedFor now q (c.setRanked r.config.cachePolicy now q.rankedKey routes)).candidates
        = (r.cachedFor now q c).candidates ∧
      ((r.cachedFor now q (c.setRanked r.config.cachePolicy now q.rankedKey routes)).ranked = none ∨
        (r.cachedFor now q (c.setRanked r.config.cachePolicy now q.rankedKey routes)).ranked
          = some routes) := by
  have hset : c.setRanked r.config.cachePolicy now q.rankedKey routes
      = { c with ranked := c.ranked.insert now r.config.cachePolicy.rankedTime q.rankedKey routes } := by
    rw [RouteCaches.setRanked, if_pos (rankedEnabled_of_usesRankedCache huse)]
  rw [hset]
  refine ⟨rfl, ?_⟩
  rw [cachedFor, RouteCaches.ranked?]
  simp only [huse, rankedEnabled_of_usesRankedCache huse, ExpiringCache.get?_insert, if_true]
  split
  · exact Or.inr rfl
  · exact Or.inl rfl

/-! ## Rankings by what is cached -/

/-- The candidates of a request whose cached ones are given. -/
def candidatesBy (r : Router) (ctx : Context) (q : QuoteRequest) :
    Option CandidateRoutes → Except RouterError CandidateRoutes
  | some routes => .ok routes
  | none => (r.searchRoutes ctx q.denomIn q.denomOut q.options Memory.empty).1

def rankAttached (r : Router) (ctx : Context) (q : QuoteRequest) (cs : List CandidateRoute) :
    Except RouterError (List QuotedRoute) :=
  (rankRoutes ctx r.config.preferredPools q.order (attachAll r.market q.denomIn cs).1).1

def freshBy (r : Router) (ctx : Context) (q : QuoteRequest) (cached : Option CandidateRoutes) :
    Except RouterError (List QuotedRoute) := do
  let found ← r.candidatesBy ctx q cached
  let qs ← r.rankAttached ctx q found.routes
  .ok (dropSharedPools qs)

/-- The ranking of kept routes; none where none of them fits the pools. -/
def keptBy (r : Router) (ctx : Context) (q : QuoteRequest) (kept : Option (List CandidateRoute)) :
    Option (Except RouterError (List QuotedRoute)) :=
  kept.bind fun cs =>
    if (attachAll r.market q.denomIn cs).1.isEmpty then none else some (r.rankAttached ctx q cs)

/-- The ranking of a request by what is cached for it. -/
def rankingBy (r : Router) (ctx : Context) (q : QuoteRequest) (cached : Cached) :
    Except RouterError (List QuotedRoute) :=
  (r.keptBy ctx q cached.ranked).getD (r.freshBy ctx q cached.candidates)

theorem searchRoutes_fst (r : Router) (ctx : Context) (denomIn denomOut : Denom) (o : QuoteOptions)
    (m m' : Memory) :
    (r.searchRoutes ctx denomIn denomOut o m).1 = (r.searchRoutes ctx denomIn denomOut o m').1 := by
  rw [searchRoutes, searchRoutes]
  simp only
  split
  · rfl
  · split
    · rfl
    · rfl

theorem candidates_fst (r : Router) (now : Nat) (ctx : Context) (q : QuoteRequest) (m : Memory) :
    (r.candidates now ctx q.denomIn q.denomOut q.options m).1
      = r.candidatesBy ctx q (r.cachedFor now q m.caches).candidates := by
  rw [candidates, cachedFor]
  by_cases huse : q.options.usesCache = true
  · simp only [huse, Bool.not_true, Bool.false_eq_true, if_false, if_true]
    show _ = r.candidatesBy ctx q (readCandidates now q.denomIn q.denomOut m).1
    cases (readCandidates now q.denomIn q.denomOut m).1 with
    | some routes => rfl
    | none =>
      simp only [candidatesBy]
      rw [searchRoutes_fst r ctx q.denomIn q.denomOut q.options Memory.empty
        (readCandidates now q.denomIn q.denomOut m).2]
      cases (r.searchRoutes ctx q.denomIn q.denomOut q.options
        (readCandidates now q.denomIn q.denomOut m).2).1 with
      | error e => rfl
      | ok routes => rfl
  · simp only [huse, Bool.not_false, if_true, Bool.false_eq_true, if_false]
    exact searchRoutes_fst r ctx q.denomIn q.denomOut q.options m Memory.empty

theorem rankFresh_fst (r : Router) (now : Nat) (ctx : Context) (q : QuoteRequest) (m : Memory) :
    (r.rankFresh now ctx q m).1 = r.freshBy ctx q (r.cachedFor now q m.caches).candidates := by
  rw [rankFresh, freshBy, ← candidates_fst]
  cases (r.candidates now ctx q.denomIn q.denomOut q.options m).1 with
  | error e => rfl
  | ok found =>
    simp only [rankCandidates, bind, Except.bind, rankAttached]
    cases (rankRoutes ctx r.config.preferredPools q.order
      (attachAll r.market q.denomIn found.routes).1).1 with
    | error e => rfl
    | ok qs => rfl

theorem rankKept_fst (r : Router) (now : Nat) (ctx : Context) (q : QuoteRequest) (m : Memory) :
    (r.rankKept now ctx q m).1
      = r.keptBy ctx q (m.caches.ranked? r.config.cachePolicy now q.rankedKey) := by
  rw [rankKept, keptBy]
  cases m.caches.ranked? r.config.cachePolicy now q.rankedKey with
  | none => rfl
  | some cs =>
    simp only [Option.bind_some]
    split
    · rfl
    · rfl

theorem caches_rankKept (r : Router) (now : Nat) (ctx : Context) (q : QuoteRequest) (m : Memory) :
    (r.rankKept now ctx q m).2.caches
      = m.caches.afterRanked r.config.cachePolicy now q.rankedKey := by
  rw [rankKept]
  simp only
  split
  · rfl
  · split
    · rfl
    · rfl

theorem rankRequest_fst (r : Router) (now : Nat) (ctx : Context) (q : QuoteRequest) (m : Memory) :
    (r.rankRequest now ctx q m).1 = r.rankingBy ctx q (r.cachedFor now q m.caches) := by
  rw [rankRequest, rankingBy]
  by_cases huse : r.usesRankedCache q = true
  · have hranked : (r.cachedFor now q m.caches).ranked
        = m.caches.ranked? r.config.cachePolicy now q.rankedKey := by
      rw [cachedFor]
      exact if_pos huse
    rw [if_pos huse, hranked, ← rankKept_fst]
    simp only
    cases hkept : (r.rankKept now ctx q m).1 with
    | some ranked => rfl
    | none =>
      simp only [Option.getD_none]
      rw [rankFresh_fst, caches_rankKept, cachedFor_afterRanked r (Nat.le_refl now)]
  · have hranked : (r.cachedFor now q m.caches).ranked = none := by
      rw [cachedFor]
      exact if_neg huse
    rw [if_neg huse, hranked, rankFresh_fst]
    rfl

/-! ## Ranking again -/

/-- The candidates of a request, looked for again, are the same, and the ranked routes are where they
were. -/
theorem cachedFor_candidates (r : Router) (now : Nat) (ctx : Context) (q : QuoteRequest)
    (m : Memory) :
    (r.cachedFor now q (r.candidates now ctx q.denomIn q.denomOut q.options m).2.caches).ranked
        = (r.cachedFor now q m.caches).ranked ∧
      r.candidatesBy ctx q
          (r.cachedFor now q
            (r.candidates now ctx q.denomIn q.denomOut q.options m).2.caches).candidates
        = r.candidatesBy ctx q (r.cachedFor now q m.caches).candidates := by
  have hresult := candidates_fst r now ctx q m
  rw [candidates] at hresult ⊢
  split at hresult
  · rw [if_pos (by assumption), caches_searchRoutes]
    exact ⟨rfl, rfl⟩
  · rw [if_neg (by assumption)]
    simp only at hresult ⊢
    have hread : r.cachedFor now q (readCandidates now q.denomIn q.denomOut m).2.caches
        = r.cachedFor now q m.caches := cachedFor_afterCandidates r (Nat.le_refl now) q m.caches _ _
    split at hresult
    · rw [hread]
      exact ⟨rfl, rfl⟩
    · split at hresult
      · rw [caches_searchRoutes, hread]
        exact ⟨rfl, rfl⟩
      · next routes hroutes =>
        simp only [caches_searchRoutes]
        obtain ⟨hranked, hcandidates⟩ := cachedFor_setCandidates r now q
          (readCandidates now q.denomIn q.denomOut m).2.caches r.config.cachePolicy routes
        refine ⟨hranked.trans (congrArg Cached.ranked hread), ?_⟩
        rw [← hresult]
        rcases hcandidates with hnone | hsome
        · rw [hnone, candidatesBy, ← hroutes]
          exact searchRoutes_fst r ctx q.denomIn q.denomOut q.options Memory.empty _
        · rw [hsome]
          rfl

theorem attachAll_candidate {qs : List QuotedRoute}
    (h : ∀ s ∈ qs, r.Leads q.denomIn q.denomOut s.route) :
    (attachAll r.market q.denomIn (qs.map fun s => s.route.candidate)).1 = qs.map (·.route) := by
  induction qs with
  | nil => rfl
  | cons s rest ih =>
    have hs := (h s (List.mem_cons_self ..)).attached
    have hrest := ih fun x hx => h x (List.mem_cons_of_mem _ hx)
    rw [List.map_cons, List.map_cons, attachAll, hs, ← hrest]

/-- Routes that are kept as they were ranked are ranked the same again. -/
theorem keptBy_candidates {qs : List QuotedRoute} (hctx : ∀ n, ctx.isDone .ranking n = false)
    (h : r.Ranks q qs) :
    r.keptBy ctx q (some (qs.map fun s => s.route.candidate)) = some (.ok qs) := by
  obtain ⟨routes, hranking⟩ := h.ranking
  have hattached := attachAll_candidate h.leads
  have hranked := rankRoutes_map_route hctx hranking.ne_nil hranking.pays hranking.sorted
  have hempty : (qs.map (·.route)).isEmpty = false := by
    rw [List.isEmpty_map]
    exact List.isEmpty_eq_false_iff.2 hranking.ne_nil
  rw [keptBy, Option.bind_some, rankAttached, hattached, hempty, hranked]
  rfl

theorem caches_rankFresh_of_error {e : RouterError} (h : (r.rankFresh now ctx q m).1 = .error e) :
    (r.rankFresh now ctx q m).2.caches
      = (r.candidates now ctx q.denomIn q.denomOut q.options m).2.caches := by
  rw [rankFresh] at h ⊢
  simp only at h ⊢
  split at h
  · rfl
  · split at h
    · rfl
    · cases h

/-- A ranking that succeeds is added to what the candidates left, if rankings are kept. -/
theorem caches_rankFresh_of_ok {qs : List QuotedRoute}
    (h : (r.rankFresh now ctx q m).1 = .ok qs) :
    (r.rankFresh now ctx q m).2.caches =
      if r.usesRankedCache q then
        (r.candidates now ctx q.denomIn q.denomOut q.options m).2.caches.setRanked
          r.config.cachePolicy now q.rankedKey (qs.map fun s => s.route.candidate)
      else (r.candidates now ctx q.denomIn q.denomOut q.options m).2.caches := by
  rw [rankFresh] at h ⊢
  simp only at h ⊢
  split at h
  · cases h
  · split at h
    · cases h
    · cases h
      split
      · rfl
      · rfl

/-- How ranking candidates changes the caches: where the ranking succeeds and is kept, it is added to
what the candidates left. -/
theorem caches_rankFresh (r : Router) (now : Nat) (ctx : Context) (q : QuoteRequest) (m : Memory) :
    (r.rankFresh now ctx q m).2.caches
        = (r.candidates now ctx q.denomIn q.denomOut q.options m).2.caches ∨
      r.usesRankedCache q = true ∧ ∃ qs, (r.rankFresh now ctx q m).1 = .ok qs ∧
        (r.rankFresh now ctx q m).2.caches
          = (r.candidates now ctx q.denomIn q.denomOut q.options m).2.caches.setRanked
              r.config.cachePolicy now q.rankedKey (qs.map fun s => s.route.candidate) := by
  cases hresult : (r.rankFresh now ctx q m).1 with
  | error e => exact Or.inl (caches_rankFresh_of_error hresult)
  | ok qs =>
    have hcaches := caches_rankFresh_of_ok hresult
    split at hcaches
    · next huse => exact Or.inr ⟨huse, qs, rfl, hcaches⟩
    · exact Or.inl hcaches

/-- What a ranking leaves in the caches gives the same ranking. -/
theorem rankingBy_cachedFor_rankFresh (hkeyed : r.generation.snapshot.Keyed) (hm : m.caches.Sound)
    (hctx : ∀ n, ctx.isDone .ranking n = false)
    (hkept : r.keptBy ctx q (r.cachedFor now q m.caches).ranked = none) :
    r.rankingBy ctx q (r.cachedFor now q (r.rankFresh now ctx q m).2.caches)
      = (r.rankFresh now ctx q m).1 := by
  obtain ⟨hranked, hcandidates⟩ := cachedFor_candidates r now ctx q m
  rcases caches_rankFresh r now ctx q m with hcaches | ⟨huse, qs, hqs, hcaches⟩
  · rw [hcaches, rankingBy, hranked, hkept, freshBy, hcandidates, rankFresh_fst]
    rfl
  · have hranks := (rankFresh_spec hkeyed hm now ctx q).2 qs hqs
    obtain ⟨hsame, hset⟩ := cachedFor_setRanked huse now
      (r.candidates now ctx q.denomIn q.denomOut q.options m).2.caches
      (qs.map fun s => s.route.candidate)
    rw [hcaches, rankingBy]
    rcases hset with hnone | hsome
    -- kept for no time at all, so the same candidates are ranked again
    · rw [hnone, hsame, freshBy, hcandidates, rankFresh_fst]
      rfl
    · rw [hsome, keptBy_candidates hctx hranks, hqs]
      rfl

theorem rankingBy_cachedFor_rankRequest (hkeyed : r.generation.snapshot.Keyed)
    (hm : m.caches.Sound) (hctx : ∀ n, ctx.isDone .ranking n = false) :
    r.rankingBy ctx q (r.cachedFor now q (r.rankRequest now ctx q m).2.caches)
      = (r.rankRequest now ctx q m).1 := by
  have hfirst := rankRequest_fst r now ctx q m
  rw [rankRequest] at hfirst ⊢
  by_cases huse : r.usesRankedCache q = true
  · have hread : r.cachedFor now q (r.rankKept now ctx q m).2.caches = r.cachedFor now q m.caches := by
      rw [caches_rankKept, cachedFor_afterRanked r (Nat.le_refl now)]
    rw [if_pos huse] at hfirst ⊢
    simp only at hfirst ⊢
    cases hkept : (r.rankKept now ctx q m).1 with
    | some ranked =>
      rw [hkept] at hfirst
      simp only at hfirst ⊢
      rw [hread, hfirst]
    | none =>
      simp only
      refine rankingBy_cachedFor_rankFresh hkeyed (sound_rankKept r hm now ctx q) hctx ?_
      rw [hread, cachedFor]
      simp only [if_pos huse]
      rw [← rankKept_fst]
      exact hkept
  · rw [if_neg huse]
    refine rankingBy_cachedFor_rankFresh hkeyed hm hctx ?_
    rw [cachedFor]
    simp only [if_neg huse]
    rfl

theorem cachedFor_of_keeps {c : RouteCaches} (hkeeps : c.Keeps now later) (hle : now ≤ later)
    (r : Router) (q : QuoteRequest) : r.cachedFor later q c = r.cachedFor now q c := by
  rw [cachedFor, cachedFor, RouteCaches.candidates?, RouteCaches.candidates?, RouteCaches.ranked?,
    RouteCaches.ranked?, hkeeps.candidates.get? hle, hkeeps.ranked.get? hle]

/-- A request that is repeated before anything expires is ranked as before. -/
theorem rankRequest_again (hkeyed : r.generation.snapshot.Keyed) (hm : m.caches.Sound)
    (hctx : ∀ n, ctx.isDone .ranking n = false)
    (hm' : m'.caches = (r.rankRequest now ctx q m).2.caches) (hkeeps : m'.caches.Keeps now later)
    (hle : now ≤ later) :
    (r.rankRequest later ctx q m').1 = (r.rankRequest now ctx q m).1 := by
  rw [rankRequest_fst, cachedFor_of_keeps hkeeps hle, hm',
    rankingBy_cachedFor_rankRequest hkeyed hm hctx]

end Router

end SwapRouting
