import SwapRouting.Proofs.Router.Requests

/-! Quotes that are repeated.

A request that was quoted leaves its routes settled: what it would take from the caches is there, or is
kept for no time at all. A settled request sees no change in the caches, whatever else is asked, since
requests store only where they saw nothing of use. So it is quoted again as before until a block comes,
routes are pinned, or an entry expires. -/
namespace SwapRouting
set_option autoImplicit false

namespace ExpiringCache

variable {κ α : Type} [DecidableEq κ] {c : ExpiringCache κ α} {now later ttl : Nat} {k k' : κ} {a : α}

/-- An entry that is there later is there now. -/
theorem get?_of_later (hle : now ≤ later) (h : c.get? later k = some a) : c.get? now k = some a := by
  obtain ⟨e, he, hlater, hvalue⟩ := get?_eq_some_iff.1 h
  exact get?_eq_some_iff.2 ⟨e, he, by omega, hvalue⟩

/-- Storing under a key is not seen later under another key, nor under the same one if nothing is kept
for any time. -/
theorem get?_insert_of_settled (hle : now ≤ later)
    (h : k = k' → c.get? later k' = none ∧ ttl = 0) :
    (c.insert now ttl k a).get? later k' = c.get? later k' := by
  rw [get?_insert]
  split
  · next hk =>
    obtain ⟨hnone, httl⟩ := h hk
    rw [hnone, if_neg (by omega)]
  · rfl

end ExpiringCache

namespace Router

variable {r : Router} {now later : Nat} {ctx : Context} {q : QuoteRequest} {m : Memory}
variable {c c' : RouteCaches} {qs : List QuotedRoute}

/-! ## What a request takes from the caches -/

/-- The cached routes that a request takes at a time: ranked ones, and candidates only if there are no
ranked ones. -/
def takes (r : Router) (now : Nat) (q : QuoteRequest) (c : RouteCaches) : Cached where
  candidates := if (r.cachedFor now q c).ranked.isSome then none else (r.cachedFor now q c).candidates
  ranked := (r.cachedFor now q c).ranked

/-- Whether nothing that other requests store can change what a request takes: there is something to
take that fits the pools, or what is stored for the request is kept for no time. -/
structure Settled (r : Router) (q : QuoteRequest) (taken : Cached) : Prop where
  fits : ∀ cs, taken.ranked = some cs → r.fitting q cs ≠ []
  ranked : taken.ranked = none → r.usesRankedCache q = true → r.config.cachePolicy.rankedTime = 0
  candidates : taken.ranked = none → taken.candidates = none → q.options.usesCache = true →
    r.config.cachePolicy.candidateTime = 0

theorem takes_congr (hranked : (r.cachedFor now q c').ranked = (r.cachedFor now q c).ranked)
    (hcandidates : (r.cachedFor now q c).ranked = none →
      (r.cachedFor now q c').candidates = (r.cachedFor now q c).candidates) :
    r.takes now q c' = r.takes now q c := by
  rw [takes, takes, hranked]
  cases h : (r.cachedFor now q c).ranked with
  | some cs => rfl
  | none => rw [hcandidates h]

theorem settled_of_ranked {cs : List CandidateRoute}
    (hranked : (r.cachedFor now q c).ranked = some cs) (hfits : r.fitting q cs ≠ []) :
    r.Settled q (r.takes now q c) := by
  have htaken : (r.takes now q c).ranked = some cs := hranked
  refine ⟨?_, fun hnone => ?_, fun hnone => ?_⟩
  · intro cs' hcs'
    rw [htaken, Option.some.injEq] at hcs'
    exact hcs' ▸ hfits
  · rw [htaken] at hnone
    cases hnone
  · rw [htaken] at hnone
    cases hnone

theorem settled_of_candidates (hnone : (r.cachedFor now q c).ranked = none)
    (hranked : r.usesRankedCache q = true → r.config.cachePolicy.rankedTime = 0)
    (hcandidates : q.options.usesCache = true → (r.cachedFor now q c).candidates = none →
      r.config.cachePolicy.candidateTime = 0) : r.Settled q (r.takes now q c) := by
  have htaken : r.takes now q c = r.cachedFor now q c := by
    rw [takes, hnone]
    exact congrArg (Cached.mk _) hnone.symm
  rw [htaken]
  refine ⟨?_, fun _ => hranked, fun _ hnothing hcache => hcandidates hcache hnothing⟩
  intro cs hcs
  rw [hnone] at hcs
  cases hcs

theorem rankingBy_takes (h : r.Settled q (r.takes now q c)) (ctx : Context) :
    r.rankingBy ctx q (r.takes now q c) = r.rankingBy ctx q (r.cachedFor now q c) := by
  have hfits := h.fits
  rw [takes] at hfits ⊢
  cases hranked : (r.cachedFor now q c).ranked with
  | none =>
    rw [rankingBy, rankingBy, hranked]
    rfl
  | some cs =>
    have hsome : (attachAll r.market q.denomIn cs).1.isEmpty = false :=
      List.isEmpty_eq_false_iff.2 (hfits cs hranked)
    rw [rankingBy, rankingBy, hranked, keptBy, Option.bind_some, hsome]
    rfl

/-! ## Other requests -/

theorem cachedFor_of_lookup (h : c.Lookup r.config.cachePolicy now c') (hle : now ≤ later)
    (q : QuoteRequest) : r.cachedFor later q c' = r.cachedFor later q c := by
  cases h with
  | candidates denomIn denomOut => exact cachedFor_afterCandidates r hle q c denomIn denomOut
  | ranked k => exact cachedFor_afterRanked r hle q c k

theorem candidates_cachedFor (hcache : q.options.usesCache = true) :
    (r.cachedFor now q c).candidates = c.candidates? now q.denomIn q.denomOut := if_pos hcache

theorem ranked_cachedFor (huse : r.usesRankedCache q = true) :
    (r.cachedFor now q c).ranked = c.ranked.get? now q.rankedKey := by
  rw [cachedFor, RouteCaches.ranked?, rankedEnabled_of_usesRankedCache huse]
  simp only [huse, if_true]

theorem takes_of_storeCandidates (h : r.Settled q (r.takes later q c)) (hle : now ≤ later)
    {denomIn denomOut : Denom} (hmiss : c.candidates? now denomIn denomOut = none)
    (routes : CandidateRoutes) :
    r.takes later q (c.setCandidates r.config.cachePolicy now denomIn denomOut routes)
      = r.takes later q c := by
  refine takes_congr rfl fun hranked => ?_
  by_cases hcache : q.options.usesCache = true
  · rw [candidates_cachedFor hcache, candidates_cachedFor hcache, RouteCaches.candidates?,
      RouteCaches.candidates?, RouteCaches.setCandidates, ExpiringCache.get?_insert_of_settled hle]
    intro hpair
    -- the pair was not there before, so it is not there later
    have hnone : c.candidates.get? later (DenomPair.of q.denomIn q.denomOut) = none := by
      rw [← hpair, Option.eq_none_iff_forall_ne_some]
      intro s hs
      rw [RouteCaches.candidates?, ExpiringCache.get?_of_later hle hs] at hmiss
      cases hmiss
    have htaken : (r.takes later q c).candidates = none := by
      rw [takes]
      simp only [hranked, candidates_cachedFor hcache, RouteCaches.candidates?, hnone]
      rfl
    exact ⟨hnone, h.candidates hranked htaken hcache⟩
  · rw [cachedFor, cachedFor, if_neg hcache, if_neg hcache]

theorem takes_of_storeRanked (h : r.Settled q (r.takes later q c)) (hle : now ≤ later)
    {k : RankedKey} (hunfit : r.Unfit now k c) (routes : List CandidateRoute) :
    r.takes later q (c.setRanked r.config.cachePolicy now k routes) = r.takes later q c := by
  by_cases huse : r.usesRankedCache q = true
  · have hset : c.setRanked r.config.cachePolicy now k routes
        = { c with ranked := c.ranked.insert now r.config.cachePolicy.rankedTime k routes } := by
      rw [RouteCaches.setRanked, if_pos (rankedEnabled_of_usesRankedCache huse)]
    have hsettled : k = q.rankedKey →
        c.ranked.get? later q.rankedKey = none ∧ r.config.cachePolicy.rankedTime = 0 := by
      rintro rfl
      cases hget : c.ranked.get? later q.rankedKey with
      | none => exact ⟨rfl, h.ranked ((ranked_cachedFor huse).trans hget) huse⟩
      | some cs =>
        -- routes that fit are not replaced
        have hnow : c.ranked? r.config.cachePolicy now q.rankedKey = some cs := by
          rw [RouteCaches.ranked?, if_pos (rankedEnabled_of_usesRankedCache huse)]
          exact ExpiringCache.get?_of_later hle hget
        exact absurd (hunfit cs hnow) (h.fits cs ((ranked_cachedFor huse).trans hget))
    rw [hset]
    refine takes_congr ?_ fun _ => rfl
    rw [ranked_cachedFor huse, ranked_cachedFor huse, ExpiringCache.get?_insert_of_settled hle hsettled]
  · have hcandidates : (r.cachedFor later q (c.setRanked r.config.cachePolicy now k routes)).candidates
        = (r.cachedFor later q c).candidates := by
      rw [RouteCaches.setRanked]
      split
      · rfl
      · rfl
    refine takes_congr ?_ fun _ => hcandidates
    rw [cachedFor, cachedFor, if_neg huse, if_neg huse]

theorem takes_of_access (h : r.Settled q (r.takes later q c)) (hle : now ≤ later)
    (haccess : r.Access now c c') : r.takes later q c' = r.takes later q c := by
  cases haccess with
  | lookup hlookup => rw [takes, takes, cachedFor_of_lookup hlookup hle]
  | storeCandidates hmiss _ => exact takes_of_storeCandidates h hle hmiss _
  | storeRanked hunfit _ _ => exact takes_of_storeRanked h hle hunfit _

theorem takes_of_accesses (h : r.Settled q (r.takes later q c)) (hle : now ≤ later)
    (haccesses : r.Accesses now c c') : r.takes later q c' = r.takes later q c := by
  induction haccesses with
  | refl => rfl
  | tail _ haccess ih => exact (takes_of_access (ih ▸ h) hle haccess).trans ih

/-! ## What a ranking leaves settled -/

theorem candidateTime_of_candidates_eq_ok {found : CandidateRoutes}
    (h : (r.candidates now ctx q.denomIn q.denomOut q.options m).1 = .ok found)
    (hcache : q.options.usesCache = true)
    (hnone : (r.candidates now ctx q.denomIn q.denomOut q.options m).2.caches.candidates? now
      q.denomIn q.denomOut = none) : r.config.cachePolicy.candidateTime = 0 := by
  rcases caches_candidates_cases r now ctx q.denomIn q.denomOut q.options m with
    ⟨hpast, -⟩ | ⟨-, hcaches, hhit⟩ | ⟨-, -, stored, -, -, hcaches⟩
  · rw [hpast] at hcache
    cases hcache
  · rcases hhit with ⟨cached, hcached⟩ | ⟨e, he⟩
    · rw [hcaches, RouteCaches.candidates?, RouteCaches.afterCandidates,
        ExpiringCache.get?_afterGet _ (Nat.le_refl now)] at hnone
      rw [RouteCaches.candidates?, hnone] at hcached
      cases hcached
    · rw [h] at he
      cases he
  · rw [hcaches, RouteCaches.candidates?, RouteCaches.setCandidates, ExpiringCache.get?_insert,
      if_pos rfl] at hnone
    split at hnone
    · cases hnone
    · omega

theorem settled_rankFresh (hkeyed : r.generation.snapshot.Keyed) (hm : m.caches.Sound)
    (h : (r.rankFresh now ctx q m).1 = .ok qs) :
    r.Settled q (r.takes now q (r.rankFresh now ctx q m).2.caches) := by
  have hranks := (rankFresh_spec hkeyed hm now ctx q).2 qs h
  have hfound : ∃ found, (r.candidates now ctx q.denomIn q.denomOut q.options m).1 = .ok found := by
    rw [rankFresh_fst, freshBy, ← candidates_fst] at h
    obtain ⟨found, hfound, -⟩ := bind_eq_ok_iff.1 h
    exact ⟨found, hfound⟩
  obtain ⟨found, hfound⟩ := hfound
  have hcandidates : q.options.usesCache = true →
      (r.cachedFor now q
        (r.candidates now ctx q.denomIn q.denomOut q.options m).2.caches).candidates = none →
      r.config.cachePolicy.candidateTime = 0 := by
    intro hcache hnone
    exact candidateTime_of_candidates_eq_ok hfound hcache ((candidates_cachedFor hcache).symm.trans hnone)
  rw [caches_rankFresh_of_ok h]
  by_cases huse : r.usesRankedCache q = true
  · have hset := rankedEnabled_of_usesRankedCache huse
    rw [if_pos huse, RouteCaches.setRanked, if_pos hset]
    by_cases htime : r.config.cachePolicy.rankedTime = 0
    · refine settled_of_candidates ?_ (fun _ => htime) hcandidates
      rw [ranked_cachedFor huse, ExpiringCache.get?_insert, if_pos rfl, if_neg (by omega)]
    · have hkept : now < now + r.config.cachePolicy.rankedTime := by omega
      have hfits : r.fitting q (qs.map fun s => s.route.candidate) ≠ [] := by
        obtain ⟨routes, hranking⟩ := hranks.ranking
        rw [fitting, attachAll_candidate hranks.leads]
        simpa using hranking.ne_nil
      refine settled_of_ranked ?_ hfits
      rw [ranked_cachedFor huse, ExpiringCache.get?_insert, if_pos rfl, if_pos hkept]
  · rw [if_neg huse]
    refine settled_of_candidates ?_ (fun h' => absurd h' huse) hcandidates
    rw [cachedFor]
    exact if_neg huse

theorem settled_rankRequest (hkeyed : r.generation.snapshot.Keyed) (hm : m.caches.Sound)
    (h : (r.rankRequest now ctx q m).1 = .ok qs) :
    r.Settled q (r.takes now q (r.rankRequest now ctx q m).2.caches) := by
  rw [rankRequest] at h ⊢
  by_cases huse : r.usesRankedCache q = true
  · rw [if_pos huse] at h ⊢
    simp only at h ⊢
    cases hkept : (r.rankKept now ctx q m).1 with
    | some ranked =>
      have hread : r.cachedFor now q (r.rankKept now ctx q m).2.caches = r.cachedFor now q m.caches := by
        rw [caches_rankKept, cachedFor_afterRanked r (Nat.le_refl now)]
      -- the kept routes fit, for otherwise none of them would be ranked
      rw [rankKept_fst, keptBy] at hkept
      obtain ⟨cs, hcs, hfits⟩ := Option.bind_eq_some_iff.1 hkept
      have hne : r.fitting q cs ≠ [] := by
        intro hempty
        rw [show (attachAll r.market q.denomIn cs).1 = [] from hempty] at hfits
        cases hfits
      refine settled_of_ranked ?_ hne
      rw [hread, cachedFor]
      simp only [huse, if_true]
      exact hcs
    | none =>
      rw [hkept] at h
      exact settled_rankFresh hkeyed (sound_rankKept r hm now ctx q) h
  · rw [if_neg huse] at h ⊢
    exact settled_rankFresh hkeyed hm h

/-! ## Requests in between -/

/-- Whether an operation asks for a quote or for candidates, at this time at the latest. -/
def AsksBy (later : Nat) (op : Operation) : Prop := ∃ now ≤ later, op.askedAt? = some now

theorem perform_of_asksBy {op : Operation} (h : AsksBy later op) (r : Router) :
    r.perform op = { r with memory := (r.perform op).memory } := by
  obtain ⟨now, -, hnow⟩ := h
  cases op with
  | ask time ctx inquiry => rfl
  | candidates time ctx denomIn denomOut options => rfl
  | cached time denomIn denomOut => rfl
  | _ => cases hnow

theorem run_of_asksBy {between : List Operation} (h : ∀ op ∈ between, AsksBy later op) (r : Router) :
    ∃ m, r.run between = { r with memory := m } := by
  induction between generalizing r with
  | nil => exact ⟨r.memory, rfl⟩
  | cons op rest ih =>
    obtain ⟨m, hm⟩ := ih (fun x hx => h x (List.mem_cons_of_mem _ hx)) (r.perform op)
    refine ⟨m, hm.trans ?_⟩
    rw [perform_of_asksBy (h op (List.mem_cons_self ..)) r]

/-- Other requests leave a settled request what it takes from the caches. -/
theorem takes_run (h : r.Sound) (hsettled : r.Settled q (r.takes later q r.memory.caches))
    {between : List Operation} (hbetween : ∀ op ∈ between, AsksBy later op) :
    r.takes later q (r.run between).memory.caches = r.takes later q r.memory.caches := by
  induction between generalizing r with
  | nil => rfl
  | cons op rest ih =>
    have hasks := hbetween op (List.mem_cons_self ..)
    have hstep := perform_of_asksBy hasks r
    have htakes : r.takes later q (r.perform op).memory.caches = r.takes later q r.memory.caches := by
      obtain ⟨now, hle, hnow⟩ := hasks
      exact takes_of_accesses hsettled hle (accesses_perform h hnow)
    have hsame : (r.perform op).takes later q = r.takes later q := by
      rw [hstep]
      rfl
    have hstill : (r.perform op).Settled q ((r.perform op).takes later q (r.perform op).memory.caches) := by
      rw [hsame, htakes, hstep]
      exact ⟨hsettled.fits, hsettled.ranked, hsettled.candidates⟩
    have hrest := ih (h.perform op) hstill fun x hx => hbetween x (List.mem_cons_of_mem _ hx)
    rw [hsame] at hrest
    exact hrest.trans htakes

/-- A request that is ranked and then left alone is ranked the same again, whatever else was asked. -/
theorem rankingBy_run (h : r.Sound) (hctx : ∀ n, ctx.isDone .ranking n = false)
    (hvalid : r.validateRequest q.denomIn q.denomOut q.amount = .ok ())
    (hpinned : r.pinnedRoutes? q = none)
    (hranked : r.rankingBy ctx q (r.cachedFor now q r.memory.caches) = .ok qs) (hle : now ≤ later)
    (hkeeps : (r.perform (.ask now ctx (.best q))).memory.caches.Keeps now later)
    {between : List Operation} (hbetween : ∀ op ∈ between, AsksBy later op) :
    r.rankingBy ctx q (r.cachedFor later q
      ((r.perform (.ask now ctx (.best q))).run between).memory.caches) = .ok qs := by
  have hfirst : (r.rankRequest now ctx q r.memory).1 = .ok qs := (rankRequest_fst ..).trans hranked
  have hcached : r.cachedFor later q (r.ask now ctx (.best q)).2.caches
      = r.cachedFor now q (r.rankRequest now ctx q r.memory).2.caches := by
    have hask : (r.ask now ctx (.best q)).2.caches = (r.rankRequest now ctx q r.memory).2.caches :=
      caches_ask hvalid hpinned
    rw [← hask]
    exact cachedFor_of_keeps hkeeps hle r q
  have hsettled : r.Settled q (r.takes later q (r.ask now ctx (.best q)).2.caches) := by
    have hnow := settled_rankRequest h.keyed h.caches hfirst
    rw [takes] at hnow ⊢
    rw [hcached]
    exact hnow
  have hrun : r.takes later q ((r.perform (.ask now ctx (.best q))).run between).memory.caches
      = r.takes later q (r.ask now ctx (.best q)).2.caches :=
    takes_run (h.perform (.ask now ctx (.best q)))
      ⟨hsettled.fits, hsettled.ranked, hsettled.candidates⟩ hbetween
  rw [← rankingBy_takes (hrun ▸ hsettled), hrun, rankingBy_takes hsettled, hcached,
    rankingBy_cachedFor_rankRequest h.keyed h.caches hctx]
  exact hfirst

/-- A request that was quoted is quoted the same again, whatever was asked in between, as long as no
block came, no routes were pinned, and nothing expired that was cached when it was quoted. -/
theorem ask_again_eq_ok (h : r.Reachable) (hctx : ∀ stage n, ctx.isDone stage n = false)
    {quote : Quote} (hquote : (r.ask now ctx (.best q)).1 = .ok quote) (hle : now ≤ later)
    (hkeeps : (r.perform (.ask now ctx (.best q))).memory.caches.Keeps now later)
    {between : List Operation} (hbetween : ∀ op ∈ between, AsksBy later op) :
    (((r.perform (.ask now ctx (.best q))).run between).ask later ctx (.best q)).1 = .ok quote := by
  have hanswer : (r.answer now ctx q r.memory).1 = .ok quote := hquote
  obtain ⟨m, hm⟩ := run_of_asksBy hbetween (r.perform (.ask now ctx (.best q)))
  have hlater : (((r.perform (.ask now ctx (.best q))).run between).ask later ctx (.best q)).1
      = (r.answer later ctx q m).1 := by
    rw [hm]
    rfl
  rw [hlater]
  cases hvalid : r.validateRequest q.denomIn q.denomOut q.amount with
  | error e =>
    rw [answer_of_invalid hvalid] at hanswer
    cases hanswer
  | ok _ =>
    cases hpinned : r.pinnedRoutes? q with
    | some pinned =>
      rw [answer_of_pinned hvalid hpinned, quotePinned_fst] at hanswer ⊢
      exact hanswer
    | none =>
      rw [answer_of_ranked hvalid hpinned, quoteRanked_fst] at hanswer ⊢
      obtain ⟨qs, hqs, hsplit⟩ := bind_eq_ok_iff.1 hanswer
      have hagain := rankingBy_run h.sound (hctx .ranking) hvalid hpinned hqs hle hkeeps hbetween
      rw [hm] at hagain
      exact bind_eq_ok_iff.2 ⟨qs, hagain, hsplit⟩

/-! ## A router that is asked again -/

theorem ask_twins : ∃ quote, (twins.ask 0 .background (.best twinRequest)).1 = .ok quote := by
  have h : (twins.ask 0 .background (.best twinRequest)).1.toOption.isSome = true := by
    decide +kernel
  obtain ⟨quote, hquote⟩ := Option.isSome_iff_exists.1 h
  exact ⟨quote, toOption_eq_some_iff.1 hquote⟩

/-- Requests of the same power of ten, the other way round, past the caches, and for candidates. -/
def twinRequests : List Operation :=
  [.ask 0 .background (.best { twinRequest with amount := 150, allowSplit := false }),
    .ask 1 .background (.best { twinRequest with denomIn := "b", denomOut := "a" }),
    .ask 1 .background (.best twinRequest.uncached),
    .ask 1 .finished (.best twinRequest),
    .candidates 1 .background "b" "a" {},
    .cached 1 "a" "b",
    .ask 1 .background (.direct ⟨"a", 100⟩ "b" 2)]

theorem twins_ask_again : ∃ quote,
    (twins.ask 0 .background (.best twinRequest)).1 = .ok quote ∧
    (((twins.perform (.ask 0 .background (.best twinRequest))).run twinRequests).ask 1 .background
      (.best twinRequest)).1 = .ok quote := by
  obtain ⟨quote, hquote⟩ := ask_twins
  refine ⟨quote, hquote, ?_⟩
  refine ask_again_eq_ok reachable_twins (fun _ _ => rfl) hquote (by decide) (keeps_twins true) ?_
  intro op hop
  simp only [twinRequests, List.mem_cons, List.not_mem_nil, or_false] at hop
  rcases hop with rfl | rfl | rfl | rfl | rfl | rfl | rfl
  · exact ⟨0, by decide, rfl⟩
  all_goals exact ⟨1, by decide, rfl⟩

end Router

end SwapRouting
