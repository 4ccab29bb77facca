import SwapRouting.Proofs.Router.Requests

/-! Requests past the caches.

A request that disables the caches, or that sets limits of its own for the search, neither reads nor
stores cached routes. Its answer is told by the settings, the tokens, the pools and the pinned routes
alone: two routers that agree on these give the same answer, whatever they were asked before. -/
namespace SwapRouting
set_option autoImplicit false

/-- Whether a request with these options keeps away from both caches. -/
def QuoteOptions.Bypass (o : QuoteOptions) : Prop :=
  o.disableCache = true ∨ o.maxRoutes.isSome = true ∨ o.maxPools.isSome = true ∨
    o.minLiquidity.isSome = true

theorem QuoteOptions.Bypass.usesCache {o : QuoteOptions} (h : o.Bypass) : o.usesCache = false := by
  rw [QuoteOptions.usesCache, overridesSearch]
  rcases h with h | h | h | h
  · simp [h]
  · simp [h]
  · simp [h]
  · simp [h]

namespace Router

variable {r r' : Router} {q : QuoteRequest} {o : QuoteOptions}

/-! ## The caches -/

theorem candidates_of_bypass (ho : o.Bypass) (r : Router) (now : Nat) (ctx : Context)
    (denomIn denomOut : Denom) (m : Memory) :
    r.candidates now ctx denomIn denomOut o m = r.searchRoutes ctx denomIn denomOut o m := by
  rw [candidates, ho.usesCache]
  rfl

theorem caches_candidates_of_bypass (ho : o.Bypass) (r : Router) (now : Nat) (ctx : Context)
    (denomIn denomOut : Denom) (m : Memory) :
    (r.candidates now ctx denomIn denomOut o m).2.caches = m.caches := by
  rw [candidates_of_bypass ho, caches_searchRoutes]

theorem caches_ask_of_bypass (hq : q.options.Bypass) (r : Router) (now : Nat) (ctx : Context) :
    (r.ask now ctx (.best q)).2.caches = r.memory.caches := by
  have huse : r.usesRankedCache q = false := by
    rw [usesRankedCache, hq.usesCache]
    rfl
  have hfresh : (r.rankFresh now ctx q r.memory).2.caches = r.memory.caches := by
    rcases caches_rankFresh r now ctx q r.memory with hcandidates | ⟨hranked, -⟩
    · rw [hcandidates, caches_candidates_of_bypass hq]
    · rw [huse] at hranked
      cases hranked
  rcases caches_ask_cases r now ctx q with hsame | hranked
  · exact hsame
  · rw [hranked, rankRequest, huse]
    exact hfresh

/-! ## Routers that agree -/

/-- Whether two routers have the same settings, tokens and pools, and the same routes pinned. -/
structure Agrees (r r' : Router) : Prop where
  config : r.config = r'.config
  tokens : r.tokens = r'.tokens
  generation : r.generation = r'.generation
  pinned : ∀ denomIn denomOut,
    r.overwrites.get? denomIn denomOut = r'.overwrites.get? denomIn denomOut

theorem pinned_perform_of_disabled (hoff : r.overwritesEnabled = false)
    (h : r.overwrites.pinned = Dict.empty) (op : Operation) :
    (r.perform op).overwrites.pinned = Dict.empty := by
  cases op with
  | pin denomIn routes =>
    rw [perform, overwriteRoutes, hoff]
    exact h
  | load =>
    rw [perform, loadOverwrites, hoff]
    exact h
  | reopen => rfl
  | _ => exact h

theorem pinned_run_of_disabled (hoff : r.overwritesEnabled = false)
    (h : r.overwrites.pinned = Dict.empty) (history : List Operation) :
    (r.run history).overwrites.pinned = Dict.empty := by
  induction history generalizing r with
  | nil => exact h
  | cons op rest ih =>
    have hstill : (r.perform op).overwritesEnabled = false :=
      (sameSettings_perform r op).overwritesEnabled.trans hoff
    exact ih hstill (pinned_perform_of_disabled hoff h op)

/-- Nothing is pinned where routes may not be, so what is pinned tells what is used. -/
theorem Reachable.pinnedRoutes? (h : r.Reachable) (q : QuoteRequest) :
    r.pinnedRoutes? q = r.overwrites.get? q.denomIn q.denomOut := by
  rw [Router.pinnedRoutes?]
  split
  · rfl
  · next hoff =>
    obtain ⟨start, history, hfresh, rfl⟩ := h
    rw [(sameSettings_run start history).overwritesEnabled, Bool.not_eq_true] at hoff
    have hnone := pinned_run_of_disabled hoff hfresh.holdsNothing.1 history
    rw [OverwriteStore.get?, hnone]
    rfl

theorem Agrees.eq_with (h : r.Agrees r') :
    r' = { r with
      overwritesEnabled := r'.overwritesEnabled
      overwrites := r'.overwrites
      memory := r'.memory } := by
  rw [h.config, h.tokens, h.generation]

theorem Agrees.quotePinned (h : r.Agrees r') (ctx : Context) (q : QuoteRequest)
    (pinned : List CandidateRoute) (m m' : Memory) :
    (r.quotePinned ctx q pinned m).1 = (r'.quotePinned ctx q pinned m').1 := by
  rw [quotePinned_fst, quotePinned_fst, h.eq_with]
  rfl

theorem Agrees.searchRoutes (h : r.Agrees r') (ctx : Context) (denomIn denomOut : Denom)
    (o : QuoteOptions) (m m' : Memory) :
    (r.searchRoutes ctx denomIn denomOut o m).1 = (r'.searchRoutes ctx denomIn denomOut o m').1 := by
  rw [searchRoutes_fst r ctx denomIn denomOut o m m', h.eq_with]
  rfl

/-- What a request is answered from its ranked routes depends on what is cached, and on nothing else
in which the routers may differ. -/
theorem Agrees.quoteRanked (h : r.Agrees r') {now now' : Nat} (ctx : Context) {m m' : Memory}
    (hcached : r.cachedFor now q m.caches = r'.cachedFor now' q m'.caches) :
    (r.quoteRanked now ctx q m).1 = (r'.quoteRanked now' ctx q m').1 := by
  rw [quoteRanked_fst, quoteRanked_fst, hcached, h.eq_with]
  rfl

theorem Agrees.ask_of_bypass (hagrees : r.Agrees r') (h : r.Reachable) (h' : r'.Reachable)
    (hq : q.options.Bypass) (now now' : Nat) (ctx : Context) :
    (r.ask now ctx (.best q)).1 = (r'.ask now' ctx (.best q)).1 := by
  show (r.answer now ctx q r.memory).1 = (r'.answer now' ctx q r'.memory).1
  have hvalid : r.validateRequest q.denomIn q.denomOut q.amount
      = r'.validateRequest q.denomIn q.denomOut q.amount := by
    rw [validateRequest, validateRequest, hagrees.tokens]
  have hpinned : r.pinnedRoutes? q = r'.pinnedRoutes? q := by
    rw [h.pinnedRoutes?, h'.pinnedRoutes?, hagrees.pinned]
  rw [answer, answer, ← hvalid, ← hpinned]
  split
  · rfl
  · split
    · exact hagrees.quotePinned ctx q _ _ _
    · refine hagrees.quoteRanked ctx ?_
      rw [cachedFor_of_not_usesCache hq.usesCache, cachedFor_of_not_usesCache hq.usesCache]

/-- Two routers that agree give the same answer to a request past the caches, whatever they were asked
before, and the caches of both stay as they were. -/
theorem sameAnswers_of_bypass (h : r.Reachable) (h' : r'.Reachable) (hagrees : r.Agrees r')
    (ho : o.Bypass) (now now' : Nat) (ctx : Context) :
    (∀ q : QuoteRequest, q.options = o →
      (r.ask now ctx (.best q)).1 = (r'.ask now' ctx (.best q)).1 ∧
      (r.ask now ctx (.best q)).2.caches = r.memory.caches ∧
      (r'.ask now' ctx (.best q)).2.caches = r'.memory.caches) ∧
    ∀ denomIn denomOut,
      (r.candidates now ctx denomIn denomOut o r.memory).1
        = (r'.candidates now' ctx denomIn denomOut o r'.memory).1 ∧
      (r.candidates now ctx denomIn denomOut o r.memory).2.caches = r.memory.caches ∧
      (r'.candidates now' ctx denomIn denomOut o r'.memory).2.caches = r'.memory.caches := by
  refine ⟨?_, ?_⟩
  · rintro q rfl
    exact ⟨hagrees.ask_of_bypass h h' ho now now' ctx, caches_ask_of_bypass ho r now ctx,
      caches_ask_of_bypass ho r' now' ctx⟩
  · intro denomIn denomOut
    refine ⟨?_, caches_candidates_of_bypass ho r .., caches_candidates_of_bypass ho r' ..⟩
    rw [candidates_of_bypass ho, candidates_of_bypass ho]
    exact hagrees.searchRoutes ctx denomIn denomOut o _ _

theorem reachable_shallow : shallow.Reachable :=
  ⟨bridgeStart, _, ⟨bridgeStart.config, bridgeStart.tokens, true, false, none, by decide +kernel⟩, rfl⟩

/-- One of two routers was asked before and keeps a route that pays nothing for a smaller order. Past the
caches both answer that order with the same quote, and the route stays where it was kept. -/
theorem shallow_sameAnswers_past_caches :
    shallowAsked.memory.caches ≠ shallow.memory.caches ∧ ∃ quote,
      (shallow.ask 0 .background (.best (shallowRequest 1000).uncached)).1 = .ok quote ∧
      (shallowAsked.ask 0 .background (.best (shallowRequest 1000).uncached)).1 = .ok quote ∧
      (shallowAsked.ask 0 .background (.best (shallowRequest 1000).uncached)).2.caches
        = shallowAsked.memory.caches := by
  have hagrees : shallow.Agrees shallowAsked := ⟨rfl, rfl, rfl, fun _ _ => rfl⟩
  obtain ⟨quote, hquote⟩ := ask_shallowAsked_uncached 1000 (by simp)
  obtain ⟨hanswer, -, hcaches⟩ := (sameAnswers_of_bypass reachable_shallow reachable_shallowAsked
    hagrees (Or.inl rfl) 0 0 .background).1 (shallowRequest 1000).uncached rfl
  refine ⟨?_, quote, hanswer.trans hquote, hquote, hcaches⟩
  intro hsame
  have hkept := cachedFor_shallowAsked
  rw [hsame] at hkept
  have hnothing : (shallowAsked.cachedFor 0 (shallowRequest 1000) shallow.memory.caches).ranked
      = none := by
    show (shallow.cachedFor 0 (shallowRequest 1000) shallow.memory.caches).ranked = none
    decide +kernel
  rw [hnothing] at hkept
  cases hkept

end Router

end SwapRouting
