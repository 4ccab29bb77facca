import Mathlib.Logic.Relation
import SwapRouting.Proofs.Router.Fallback

/-! How requests change the caches.

A request looks into the caches, and stores what it found where it saw nothing of use: candidates that
were searched as the settings say, or ranked routes that share no pool. These few accesses are all that
happens to the caches between two starts of the router, so whatever they keep is kept by every request. -/
namespace SwapRouting
set_option autoImplicit false

/-- The search between two denoms that the settings ask for. -/
def configuredSearch (config : RouterConfig) (index : LiquidityIndex) (denomIn denomOut : Denom) :
    SearchRequest where
  denomIn := denomIn
  denomOut := denomOut
  maxRoutes := config.maxRoutes
  maxPools := config.maxPoolsPerRoute
  minLiquidity := config.liquidityFilter (min (index.liquidity denomIn) (index.liquidity denomOut))

/-- Whether these candidates are all that the configured search finds, and at least one. -/
def Searched (config : RouterConfig) (index : LiquidityIndex) (denomIn denomOut : Denom)
    (routes : CandidateRoutes) : Prop :=
  ∃ found, findRoutes .background index (configuredSearch config index denomIn denomOut) = .ok found ∧
    found ≠ [] ∧ routes = CandidateRoutes.ofRoutes found

/-! ## Accesses -/

/-- A look into the caches, which removes what has expired. -/
inductive RouteCaches.Lookup (p : CachePolicy) (now : Nat) (c : RouteCaches) : RouteCaches → Prop
  | candidates (denomIn denomOut : Denom) : Lookup p now c (c.afterCandidates now denomIn denomOut)
  | ranked (k : RankedKey) : Lookup p now c (c.afterRanked p now k)

namespace Router

/-- Whether none of the ranked routes kept for a key fits the pools. -/
def Unfit (r : Router) (now : Nat) (k : RankedKey) (c : RouteCaches) : Prop :=
  ∀ cs, c.ranked? r.config.cachePolicy now k = some cs → (attachAll r.market k.denomIn cs).1 = []

/-- What a request does to the caches at one moment. -/
inductive Access (r : Router) (now : Nat) (c : RouteCaches) : RouteCaches → Prop
  | lookup {c' : RouteCaches} (h : c.Lookup r.config.cachePolicy now c') : Access r now c c'
  | storeCandidates {denomIn denomOut : Denom} {routes : CandidateRoutes}
      (hmiss : c.candidates? now denomIn denomOut = none)
      (hfound : Searched r.config r.generation.index denomIn denomOut routes) :
      Access r now c (c.setCandidates r.config.cachePolicy now denomIn denomOut routes)
  | storeRanked {k : RankedKey} {routes : List CandidateRoute} (hunfit : r.Unfit now k c)
      (hne : routes ≠ []) (hapart : Apart k.denomOut routes) :
      Access r now c (c.setRanked r.config.cachePolicy now k routes)

variable {r : Router} {now : Nat} {ctx : Context} {q : QuoteRequest} {m : Memory}
variable {denomIn denomOut : Denom} {o : QuoteOptions} {routes : CandidateRoutes}

/-- Lookups one after the other. -/
abbrev Lookups (r : Router) (now : Nat) : RouteCaches → RouteCaches → Prop :=
  Relation.ReflTransGen (RouteCaches.Lookup r.config.cachePolicy now)

/-- Accesses one after the other. -/
abbrev Accesses (r : Router) (now : Nat) : RouteCaches → RouteCaches → Prop :=
  Relation.ReflTransGen (r.Access now)

/-! ## Candidates -/

theorem searchRoutes_searched (ho : o.overridesSearch = false)
    (h : (r.searchRoutes ctx denomIn denomOut o m).1 = .ok routes) :
    Searched r.config r.generation.index denomIn denomOut routes := by
  have hrequest : r.searchRequest denomIn denomOut o
      = configuredSearch r.config r.generation.index denomIn denomOut := by
    simp only [QuoteOptions.overridesSearch, Bool.or_eq_false_iff, Option.isSome_eq_false_iff,
      Option.isNone_iff_eq_none] at ho
    obtain ⟨⟨hroutes, hpools⟩, hliquidity⟩ := ho
    rw [searchRequest, hroutes, hpools, hliquidity]
    rfl
  rw [searchRoutes] at h
  simp only at h
  split at h
  · cases h
  · next found hfound =>
    split at h
    · cases h
    · next hne =>
      rw [Except.ok.injEq] at h
      rw [hrequest] at hfound
      exact ⟨found, findRoutes_background hfound, by simpa using hne, h.symm⟩

/-- What asking for candidates does to the caches: nothing past them, a look where the look is enough or
the search fails, and else a look and then the storing of what was found. -/
theorem caches_candidates_cases (r : Router) (now : Nat) (ctx : Context) (denomIn denomOut : Denom)
    (o : QuoteOptions) (m : Memory) :
    (o.usesCache = false ∧ (r.candidates now ctx denomIn denomOut o m).2.caches = m.caches) ∨
    (o.usesCache = true ∧
      (r.candidates now ctx denomIn denomOut o m).2.caches
        = m.caches.afterCandidates now denomIn denomOut ∧
      ((∃ found, m.caches.candidates? now denomIn denomOut = some found) ∨
        ∃ e, (r.candidates now ctx denomIn denomOut o m).1 = .error e)) ∨
    (o.usesCache = true ∧ m.caches.candidates? now denomIn denomOut = none ∧
      ∃ found, (r.candidates now ctx denomIn denomOut o m).1 = .ok found ∧
        Searched r.config r.generation.index denomIn denomOut found ∧
        (r.candidates now ctx denomIn denomOut o m).2.caches
          = (m.caches.afterCandidates now denomIn denomOut).setCandidates r.config.cachePolicy now
              denomIn denomOut found) := by
  rw [candidates]
  cases huse : o.usesCache with
  | false => exact Or.inl ⟨rfl, caches_searchRoutes ..⟩
  | true =>
    simp only [Bool.not_true, Bool.false_eq_true, if_false]
    refine Or.inr ?_
    cases hcached : (readCandidates now denomIn denomOut m).1 with
    | some found => exact Or.inl ⟨trivial, rfl, Or.inl ⟨found, hcached⟩⟩
    | none =>
      simp only
      cases hsearch : (r.searchRoutes ctx denomIn denomOut o
          (readCandidates now denomIn denomOut m).2).1 with
      | error e => exact Or.inl ⟨trivial, caches_searchRoutes .., Or.inr ⟨e, rfl⟩⟩
      | ok found =>
        have hoverrides : o.overridesSearch = false := by
          rw [QuoteOptions.usesCache, Bool.and_eq_true] at huse
          simpa using huse.2
        refine Or.inr ⟨trivial, hcached, found, rfl, searchRoutes_searched hoverrides hsearch, ?_⟩
        simp only [caches_searchRoutes]
        rfl

theorem lookups_candidates_of_error {e : RouterError}
    (h : (r.candidates now ctx denomIn denomOut o m).1 = .error e) :
    r.Lookups now m.caches (r.candidates now ctx denomIn denomOut o m).2.caches := by
  rcases caches_candidates_cases r now ctx denomIn denomOut o m with
    ⟨-, hcaches⟩ | ⟨-, hcaches, -⟩ | ⟨-, -, found, hfound, -⟩
  · rw [hcaches]
  · rw [hcaches]
    exact .single (.candidates denomIn denomOut)
  · rw [h] at hfound
    cases hfound

theorem accesses_candidates (r : Router) (now : Nat) (ctx : Context) (denomIn denomOut : Denom)
    (o : QuoteOptions) (m : Memory) :
    r.Accesses now m.caches (r.candidates now ctx denomIn denomOut o m).2.caches := by
  have hlook : r.Access now m.caches (m.caches.afterCandidates now denomIn denomOut) :=
    .lookup (.candidates denomIn denomOut)
  rcases caches_candidates_cases r now ctx denomIn denomOut o m with
    ⟨-, hcaches⟩ | ⟨-, hcaches, -⟩ | ⟨-, hmiss, found, -, hfound, hcaches⟩
  · rw [hcaches]
  · rw [hcaches]
    exact .single hlook
  -- the look removes expired entries only, so the pair is as missing behind it as before
  · have hstill : (m.caches.afterCandidates now denomIn denomOut).candidates? now denomIn denomOut
        = none := by
      rw [RouteCaches.candidates?, RouteCaches.afterCandidates,
        ExpiringCache.get?_afterGet _ (Nat.le_refl now)]
      exact hmiss
    rw [hcaches]
    exact (Relation.ReflTransGen.single hlook).tail (.storeCandidates hstill hfound)

theorem ranked_candidates (r : Router) (now : Nat) (ctx : Context) (denomIn denomOut : Denom)
    (o : QuoteOptions) (m : Memory) :
    (r.candidates now ctx denomIn denomOut o m).2.caches.ranked = m.caches.ranked := by
  rcases caches_candidates_cases r now ctx denomIn denomOut o m with
    ⟨-, hcaches⟩ | ⟨-, hcaches, -⟩ | ⟨-, -, found, -, -, hcaches⟩
  · rw [hcaches]
  · rw [hcaches]
    rfl
  · rw [hcaches]
    rfl

/-! ## Ranked routes -/

theorem Unfit.of_ranked {k : RankedKey} {c c' : RouteCaches} (h : r.Unfit now k c)
    (hsame : c'.ranked? r.config.cachePolicy now k = c.ranked? r.config.cachePolicy now k) :
    r.Unfit now k c' := by
  intro cs hcs
  exact h cs (hsame.symm.trans hcs)

/-- Routes that were kept for a request, and of which some fit, are ranked. -/
theorem unfit_of_rankKept_eq_none (h : (r.rankKept now ctx q m).1 = none) :
    r.Unfit now q.rankedKey m.caches := by
  intro cs hcs
  rw [rankKept_fst, keptBy, hcs, Option.bind_some] at h
  split at h
  · next hempty => exact List.isEmpty_iff.1 hempty
  · cases h

theorem ranked?_afterRanked (c : RouteCaches) (p : CachePolicy) (now : Nat) (k k' : RankedKey) :
    (c.afterRanked p now k).ranked? p now k' = c.ranked? p now k' := by
  rw [RouteCaches.afterRanked, RouteCaches.ranked?, RouteCaches.ranked?]
  split
  · rw [ExpiringCache.get?_afterGet c.ranked (Nat.le_refl now)]
  · rfl

theorem accesses_rankFresh (hkeyed : r.generation.snapshot.Keyed) (hm : m.caches.Sound)
    (hunfit : r.usesRankedCache q = true → r.Unfit now q.rankedKey m.caches) (ctx : Context) :
    r.Accesses now m.caches (r.rankFresh now ctx q m).2.caches := by
  have hfound := accesses_candidates r now ctx q.denomIn q.denomOut q.options m
  rcases caches_rankFresh r now ctx q m with hcaches | ⟨huse, qs, hqs, hcaches⟩
  · rw [hcaches]
    exact hfound
  · have hranks := (rankFresh_spec hkeyed hm now ctx q).2 qs hqs
    obtain ⟨routes, hranking⟩ := hranks.ranking
    have hne : (qs.map fun s => s.route.candidate) ≠ [] := by simpa using hranking.ne_nil
    have hstill : r.Unfit now q.rankedKey
        (r.candidates now ctx q.denomIn q.denomOut q.options m).2.caches := by
      refine (hunfit huse).of_ranked ?_
      rw [RouteCaches.ranked?, RouteCaches.ranked?, ranked_candidates]
    rw [hcaches]
    exact hfound.tail (.storeRanked hstill hne (apart_of_ranks hranks))

theorem accesses_rankRequest (hkeyed : r.generation.snapshot.Keyed) (hm : m.caches.Sound)
    (now : Nat) (ctx : Context) (q : QuoteRequest) :
    r.Accesses now m.caches (r.rankRequest now ctx q m).2.caches := by
  rw [rankRequest]
  split
  · have hlook : r.Accesses now m.caches (r.rankKept now ctx q m).2.caches := by
      rw [caches_rankKept]
      exact .single (.lookup (.ranked q.rankedKey))
    simp only
    split
    · exact hlook
    -- nothing kept was ranked, and the search in between stores candidates only
    · next hkept =>
      refine hlook.trans (accesses_rankFresh hkeyed (sound_rankKept r hm now ctx q) ?_ ctx)
      intro _
      refine (unfit_of_rankKept_eq_none hkept).of_ranked ?_
      rw [caches_rankKept, ranked?_afterRanked]
  · next huse => exact accesses_rankFresh hkeyed hm (fun h => absurd h huse) ctx

/-! ## Questions -/

/-- A question changes the caches by ranking its routes, or not at all. -/
theorem caches_ask_cases (r : Router) (now : Nat) (ctx : Context) (q : QuoteRequest) :
    (r.ask now ctx (.best q)).2.caches = r.memory.caches ∨
      (r.ask now ctx (.best q)).2.caches = (r.rankRequest now ctx q r.memory).2.caches := by
  have hask : (r.ask now ctx (.best q)).2.caches = (r.answer now ctx q r.memory).2.caches :=
    caches_quote r now ctx q
  rw [hask]
  cases hvalid : r.validateRequest q.denomIn q.denomOut q.amount with
  | error e =>
    rw [answer_of_invalid hvalid]
    exact Or.inl rfl
  | ok _ =>
    cases hpinned : r.pinnedRoutes? q with
    | some pinned =>
      rw [answer_of_pinned hvalid hpinned, caches_quotePinned]
      exact Or.inl rfl
    | none =>
      rw [answer_of_ranked hvalid hpinned, caches_quoteRanked]
      exact Or.inr rfl

theorem accesses_ask (h : r.Sound) (now : Nat) (ctx : Context) (i : Inquiry) :
    r.Accesses now r.memory.caches (r.ask now ctx i).2.caches := by
  cases i with
  | best q =>
    rcases caches_ask_cases r now ctx q with hcaches | hcaches
    · rw [hcaches]
    · rw [hcaches]
      exact accesses_rankRequest h.keyed h.caches now ctx q
  | through tokenIn denomOut ids =>
    rw [ask, caches_customQuote]
  | direct tokenIn denomOut id =>
    rw [ask, caches_directQuote]

end Router

/-- The time at which an operation asks for a quote or for candidates; none for any other. -/
def Operation.askedAt? : Operation → Option Nat
  | .ask now _ _ => some now
  | .candidates now _ _ _ _ => some now
  | .cached now _ _ => some now
  | _ => none

theorem Router.accesses_perform {r : Router} (h : r.Sound) {op : Operation} {now : Nat}
    (hop : op.askedAt? = some now) :
    r.Accesses now r.memory.caches (r.perform op).memory.caches := by
  cases op with
  | ask time ctx inquiry =>
    obtain rfl : time = now := Option.some.inj hop
    exact accesses_ask h _ ctx inquiry
  | candidates time ctx denomIn denomOut options =>
    obtain rfl : time = now := Option.some.inj hop
    exact accesses_candidates r _ ctx denomIn denomOut options r.memory
  | cached time denomIn denomOut =>
    cases hop
    exact .single (.lookup (.candidates denomIn denomOut))
  | _ => cases hop

end SwapRouting
