import SwapRouting.Proofs.Router.SingleRoute

/-! Answers from the caches where a search would give one.

A request ranks the routes that were kept for it as soon as one of them fits the pools, and cached
candidates where no kept route fits. It searches only where it finds neither. So whether a request is
answered that would be answered without the caches depends on what it takes from them: it is exactly if
that is nothing, or if one of these routes pays for the order. Routes that fit but pay nothing are
not replaced by a search. -/
namespace SwapRouting
set_option autoImplicit false

/-- The request past the caches. -/
def QuoteRequest.uncached (q : QuoteRequest) : QuoteRequest :=
  { q with options := { q.options with disableCache := true } }

/-- Whether one of these routes pays something for the order. -/
def SomePays (order : SwapOrder) (routes : List Route) : Prop :=
  ∃ s : QuotedRoute, s.route ∈ routes ∧ s.Pays order

namespace Router

variable {r : Router} {now : Nat} {ctx : Context} {q : QuoteRequest} {m : Memory}
variable {cached : Cached} {qs : List QuotedRoute}

/-- Fees between zero and one, which curves can take from every input. -/
structure FeesFit (r : Router) : Prop extends UnitFees r where
  curves : ∀ id p, r.generation.snapshot.get? id = some p → p.curve.SpreadInRange

/-! ## What a request ranks -/

/-- The candidates that fit the pools. -/
def fitting (r : Router) (q : QuoteRequest) (cs : List CandidateRoute) : List Route :=
  (attachAll r.market q.denomIn cs).1

/-- The routes that a request takes from the caches; none where it has to search. -/
def cachedRoutes (r : Router) (q : QuoteRequest) (cached : Cached) : Option (List Route) :=
  ((cached.ranked.map (r.fitting q)).filter fun routes => !routes.isEmpty).or
    (cached.candidates.map fun c => r.fitting q c.routes)

/-- Whether a request takes no routes from the caches, or some of which one pays for the order. -/
def CachePays (r : Router) (now : Nat) (q : QuoteRequest) : Prop :=
  ∀ routes, r.cachedRoutes q (r.cachedFor now q r.memory.caches) = some routes →
    SomePays q.order routes

/-- The routes that a search gives. -/
def searchedRoutes (r : Router) (ctx : Context) (q : QuoteRequest) : List Route :=
  match r.candidatesBy ctx q none with
  | .ok found => r.fitting q found.routes
  | .error _ => []

theorem feesInRange_of_mem_fitting (hkeyed : r.generation.snapshot.Keyed) (hfees : r.FeesFit)
    {cs : List CandidateRoute} {route : Route} (h : route ∈ r.fitting q cs) : route.FeesInRange := by
  obtain ⟨c, -, hattach⟩ := mem_attachAll.1 h
  intro hop hmem
  obtain ⟨hpool, a, b, hfee⟩ :=
    Market.mem_of_attachHops_eq_ok hkeyed (Market.attach_eq_ok hattach) hmem
  refine ⟨?_, hfees.curves _ _ hpool⟩
  rw [hfee]
  exact (hfees.takerFees a b).one_sub?

theorem rankAttached_isOk_iff (hkeyed : r.generation.snapshot.Keyed) (hfees : r.FeesFit)
    (hctx : ∀ n, ctx.isDone .ranking n = false) {cs : List CandidateRoute} :
    (∃ qs, r.rankAttached ctx q cs = .ok qs) ↔ SomePays q.order (r.fitting q cs) :=
  rankRoutes_isOk_iff hctx fun _ h => feesInRange_of_mem_fitting hkeyed hfees h

theorem freshBy_isOk_iff (hkeyed : r.generation.snapshot.Keyed) (hfees : r.FeesFit)
    (hctx : ∀ n, ctx.isDone .ranking n = false) {candidates : Option CandidateRoutes} :
    (∃ qs, r.freshBy ctx q candidates = .ok qs) ↔
      SomePays q.order
        ((candidates.map fun c => r.fitting q c.routes).getD (r.searchedRoutes ctx q)) := by
  have hbind : (∃ qs, r.freshBy ctx q candidates = .ok qs) ↔
      ∃ found, r.candidatesBy ctx q candidates = .ok found ∧
        SomePays q.order (r.fitting q found.routes) := by
    simp only [freshBy, bind_eq_ok_iff, ← rankAttached_isOk_iff hkeyed hfees hctx]
    constructor
    · rintro ⟨qs, found, hfound, ranked, hranked, -⟩
      exact ⟨found, hfound, ranked, hranked⟩
    · rintro ⟨found, hfound, ranked, hranked⟩
      exact ⟨_, found, hfound, ranked, hranked, rfl⟩
  rw [hbind]
  cases candidates with
  | some c => simp [candidatesBy]
  | none =>
    rw [Option.map_none, Option.getD_none, searchedRoutes]
    cases r.candidatesBy ctx q none with
    | error e => simp [SomePays]
    | ok found => simp

/-- A request is ranked exactly if one of the routes pays that it takes from the caches, or that it
searches for where it takes none. -/
theorem rankingBy_isOk_iff (hkeyed : r.generation.snapshot.Keyed) (hfees : r.FeesFit)
    (hctx : ∀ n, ctx.isDone .ranking n = false) :
    (∃ qs, r.rankingBy ctx q cached = .ok qs) ↔
      SomePays q.order ((r.cachedRoutes q cached).getD (r.searchedRoutes ctx q)) := by
  have hfresh : (∃ qs, r.freshBy ctx q cached.candidates = .ok qs) ↔
      SomePays q.order ((cached.candidates.map fun c => r.fitting q c.routes).getD
        (r.searchedRoutes ctx q)) := freshBy_isOk_iff hkeyed hfees hctx
  rw [rankingBy, cachedRoutes, keptBy]
  cases cached.ranked with
  | none => exact hfresh
  | some cs =>
    simp only [Option.bind_some, Option.map_some]
    cases hempty : (r.fitting q cs).isEmpty with
    | true =>
      rw [show (attachAll r.market q.denomIn cs).1.isEmpty = true from hempty]
      simpa [Option.filter, hempty] using hfresh
    | false =>
      rw [show (attachAll r.market q.denomIn cs).1.isEmpty = false from hempty]
      simpa [Option.filter, hempty] using rankAttached_isOk_iff hkeyed hfees hctx

/-! ## From a ranking to a quote -/

def quoteOf (r : Router) (ctx : Context) (q : QuoteRequest) (ranked : List QuotedRoute) :
    Except RouterError Quote := do
  let splits ← (optimize ctx (r.splitLimits q) q.order ranked).1
  (r.prepareQuote q.method q.denomIn q.denomOut q.amount splits Memory.empty).1

theorem quoteRanked_fst (r : Router) (now : Nat) (ctx : Context) (q : QuoteRequest) (m : Memory) :
    (r.quoteRanked now ctx q m).1
      = r.rankingBy ctx q (r.cachedFor now q m.caches) >>= r.quoteOf ctx q := by
  rw [← rankRequest_fst, quoteRanked]
  cases (r.rankRequest now ctx q m).1 with
  | error e => rfl
  | ok ranked =>
    simp only [bind, Except.bind, quoteOf]
    cases (optimize ctx (r.splitLimits q) q.order ranked).1 with
    | error e => rfl
    | ok splits => rfl

theorem quoteOf_isOk (h : r.Sound) (hfees : r.UnitFees) (hamount : q.amount < Amount.bound)
    (hlimit : (r.splitLimits q).maxRoutes < 2 ^ 64) (hranks : r.Ranks q qs)
    (hfit : q.method = .exactOut → SplitTotalsFit ctx (r.splitLimits q) q.order qs) :
    ∃ quote, r.quoteOf ctx q qs = .ok quote := by
  obtain ⟨routes, hranking⟩ := hranks.ranking
  obtain ⟨best, rest, rfl⟩ := List.exists_cons_of_ne_nil hranking.ne_nil
  have hbalanced : ∀ qs, BalancedQuotes ctx (r.splitLimits q) q.order (best :: rest) qs →
      Meets q.order qs → sumIn qs < Amount.bound ∧ conserves q.order qs = true := by
    intro qs hqs hmeets
    cases hmethod : q.method with
    | exactIn =>
      exact ⟨(hmeets.takes hmethod).trans_lt hamount, conserves_of_exactIn hmeets hmethod hamount⟩
    | exactOut =>
      obtain ⟨hin, hout⟩ := hfit hmethod qs hqs
      exact ⟨hin, conserves_of_meets hmeets hin hout⟩
  obtain ⟨splits, hsplits⟩ := optimize_isOk hranking fun qs hqs hmeets => (hbalanced qs hqs hmeets).2
  have hsplit := splitOf_of_optimize_eq_ok hranking hsplits
  have htotal : sumIn splits < Amount.bound := by
    rcases hsplit.origin with hsingle | hwinning
    · rw [hsingle, sumIn_single]
      exact Route.amountIn_lt_of_quoteFor_eq_ok hamount
        (hranking.pays best (List.mem_cons_self ..)).quoted
    · exact (hbalanced splits hwinning.balanced hsplit.meets).1
  have hlength : splits.length < 2 ^ 64 := by
    rcases length_of_splitOf hsplit with hsingle | ⟨-, hfew⟩
    · rw [hsingle, List.length_singleton]
      decide
    · omega
  obtain ⟨quote, hquote⟩ := prepareQuote_isOk h.keyed hfees htotal (leads_of_splitOf hranks hsplit)
    hsplit.buys hlength Memory.empty
  exact ⟨quote, bind_eq_ok_iff.2 ⟨splits, hsplits, hquote⟩⟩

/-! ## Answers -/

theorem ask_eq_ok (hpinned : r.pinnedRoutes? q = none) {quote : Quote}
    (hquote : (r.ask now ctx (.best q)).1 = .ok quote) :
    r.validateRequest q.denomIn q.denomOut q.amount = .ok () ∧
      ∃ qs, r.rankingBy ctx q (r.cachedFor now q r.memory.caches) = .ok qs := by
  have hanswer : (r.answer now ctx q r.memory).1 = .ok quote := hquote
  cases hvalid : r.validateRequest q.denomIn q.denomOut q.amount with
  | error e =>
    rw [answer_of_invalid hvalid] at hanswer
    cases hanswer
  | ok _ =>
    rw [answer_of_ranked hvalid hpinned, quoteRanked_fst] at hanswer
    obtain ⟨qs, hqs, -⟩ := bind_eq_ok_iff.1 hanswer
    exact ⟨rfl, qs, hqs⟩

theorem cachedFor_of_not_usesCache (h : q.options.usesCache = false) (r : Router) (now : Nat)
    (c : RouteCaches) : r.cachedFor now q c = ⟨none, none⟩ := by
  simp [cachedFor, usesRankedCache, h]

/-- A request that is answered past the caches is answered with them exactly if it takes no routes from
them or one of those pays for the order. Amounts have 128 bits here, and so have the totals of a split
that has to pay an output; the limit of splits has 64. -/
theorem ask_isOk_iff_of_uncached (h : r.Reachable) (hfees : r.FeesFit)
    (hctx : ∀ stage n, ctx.isDone stage n = false) (hpinned : r.pinnedRoutes? q = none)
    (hamount : q.amount < Amount.bound) (hlimit : (r.splitLimits q).maxRoutes < 2 ^ 64)
    (hfit : q.method = .exactOut → ∀ qs,
      r.rankingBy ctx q (r.cachedFor now q r.memory.caches) = .ok qs →
        SplitTotalsFit ctx (r.splitLimits q) q.order qs)
    (huncached : ∃ quote, (r.ask now ctx (.best q.uncached)).1 = .ok quote) :
    (∃ quote, (r.ask now ctx (.best q)).1 = .ok quote) ↔ r.CachePays now q := by
  have hsound := h.sound
  have hranking : (∃ qs, r.rankingBy ctx q (r.cachedFor now q r.memory.caches) = .ok qs) ↔
      SomePays q.order ((r.cachedRoutes q (r.cachedFor now q r.memory.caches)).getD
        (r.searchedRoutes ctx q)) := rankingBy_isOk_iff hsound.keyed hfees (hctx .ranking)
  constructor
  · rintro ⟨quote, hquote⟩ routes hroutes
    have hpays := hranking.1 (ask_eq_ok hpinned hquote).2
    rw [hroutes] at hpays
    exact hpays
  · intro hcached
    obtain ⟨found, hfound⟩ := huncached
    obtain ⟨hvalid, hsearched⟩ := ask_eq_ok (q := q.uncached) hpinned hfound
    rw [rankingBy_isOk_iff hsound.keyed hfees (hctx .ranking),
      cachedFor_of_not_usesCache (q := q.uncached) rfl] at hsearched
    -- past the caches the request ranks what it would search for, with or without the caches
    have hpays : SomePays q.order ((r.cachedRoutes q (r.cachedFor now q r.memory.caches)).getD
        (r.searchedRoutes ctx q)) := by
      cases hroutes : r.cachedRoutes q (r.cachedFor now q r.memory.caches) with
      | none => exact hsearched
      | some routes => exact hcached routes hroutes
    obtain ⟨qs, hqs⟩ := hranking.2 hpays
    have hranks := (rankRequest_spec hsound.keyed hsound.caches now ctx q).2 qs
      ((rankRequest_fst r now ctx q r.memory).trans hqs)
    obtain ⟨quote, hquote⟩ := quoteOf_isOk hsound hfees.toUnitFees hamount hlimit hranks
      fun hmethod => hfit hmethod qs hqs
    refine ⟨quote, ?_⟩
    show (r.answer now ctx q r.memory).1 = .ok quote
    rw [answer_of_ranked (q := q) hvalid hpinned, quoteRanked_fst, hqs]
    exact hquote

/-! ## A router that fails from its cache -/

/-- A transmuter, and two ways on: a deep pool with a low price, and a shallow one that pays at most
one. -/
def shallowPools : List Pool :=
  [PoolRecord.transmuter ⟨1, .constantProduct, ["in", "m"], [⟨"in", 100000⟩, ⟨"m", 100000⟩],
    Decimal.zero, 0⟩,
   PoolRecord.constantProduct ⟨2, .constantProduct, ["m", "out"],
    [⟨"m", 1000000000⟩, ⟨"out", 500000⟩], Decimal.zero, 0⟩,
   PoolRecord.constantProduct ⟨3, .constantProduct, ["m", "out"], [⟨"m", 1⟩, ⟨"out", 2⟩],
    Decimal.zero, 0⟩]

def shallow : Router := bridgeStart.run [.block ⟨1, shallowPools, []⟩ {}]

def shallowRequest (amount : Nat) : QuoteRequest := ⟨.exactIn, "in", "out", amount, {}, true⟩

/-- The router after a larger order, for which only the route through the deep pool is kept. -/
def shallowAsked : Router := shallow.perform (.ask 0 .background (.best (shallowRequest 9999)))

theorem reachable_shallowAsked : shallowAsked.Reachable :=
  ⟨bridgeStart, [.block ⟨1, shallowPools, []⟩ {}, .ask 0 .background (.best (shallowRequest 9999))],
    ⟨bridgeStart.config, bridgeStart.tokens, true, false, none, by decide +kernel⟩, rfl⟩

theorem feesFit_shallowAsked : shallowAsked.FeesFit := by
  have hzero : Decimal.zero.InUnit := ⟨rfl, by decide⟩
  have hentries : shallowAsked.generation.snapshot.pools.entries
      = shallowPools.map fun p => (p.id, p) := by
    show shallow.generation.snapshot.pools.entries = _
    decide +kernel
  have hfees : shallowAsked.generation.fees = FeeTable.empty := by
    show shallow.generation.fees = FeeTable.empty
    decide +kernel
  have hpools : ∀ e ∈ shallowAsked.generation.snapshot.pools.entries,
      e.2.spread.InUnit ∧ e.2.curve.SpreadInRange := by
    rw [hentries]
    intro e he
    simp only [shallowPools, List.map_cons, List.map_nil, List.mem_cons, List.not_mem_nil,
      or_false] at he
    rcases he with rfl | rfl | rfl
    · exact ⟨hzero, trivial⟩
    · exact ⟨hzero, hzero.one_sub?⟩
    · exact ⟨hzero, hzero.one_sub?⟩
  refine ⟨unitFees_of_entries (fun e he => (hpools e he).1) hfees hzero, ?_⟩
  intro id p hp
  exact (hpools _ (Dict.mem_entries_of_get?_eq_some hp)).2

theorem validateRequest_shallowAsked (amount : Nat) (h : amount ≠ 0) :
    shallowAsked.validateRequest "in" "out" amount = .ok () := by
  have hin : shallow.tokens.accepts "in" = true := by decide +kernel
  have hout : shallow.tokens.accepts "out" = true := by decide +kernel
  show shallow.validateRequest "in" "out" amount = .ok ()
  simp [validateRequest, h, hin, hout]

theorem pinnedRoutes?_shallowAsked (amount : Nat) :
    shallowAsked.pinnedRoutes? (shallowRequest amount) = none := by
  show shallow.pinnedRoutes? (shallowRequest amount) = none
  rfl

theorem ask_shallowAsked_uncached : ∀ amount ∈ [1000, 9999], ∃ quote,
    (shallowAsked.ask 0 .background (.best (shallowRequest amount).uncached)).1 = .ok quote := by
  have hquotes : ∀ amount ∈ [1000, 9999],
      (shallow.rankingBy .background (shallowRequest amount).uncached ⟨none, none⟩ >>=
        shallow.quoteOf .background (shallowRequest amount).uncached).toOption.isSome = true := by
    decide +kernel
  intro amount hmem
  have hpositive : amount ≠ 0 := by
    rintro rfl
    simp at hmem
  obtain ⟨quote, hquote⟩ := Option.isSome_iff_exists.1 (hquotes amount hmem)
  refine ⟨quote, ?_⟩
  show (shallowAsked.answer 0 .background (shallowRequest amount).uncached shallowAsked.memory).1
    = .ok quote
  rw [answer_of_ranked (q := (shallowRequest amount).uncached)
    (validateRequest_shallowAsked amount hpositive) (pinnedRoutes?_shallowAsked amount),
    quoteRanked_fst, cachedFor_of_not_usesCache rfl]
  exact toOption_eq_some_iff.1 hquote

theorem shallowAsked_isOk_iff :
    ((∃ quote, (shallowAsked.ask 0 .background (.best (shallowRequest 1000))).1 = .ok quote) ↔
        shallowAsked.CachePays 0 (shallowRequest 1000)) ∧
      ((∃ quote, (shallowAsked.ask 0 .background (.best (shallowRequest 9999))).1 = .ok quote) ↔
        shallowAsked.CachePays 0 (shallowRequest 9999)) := by
  refine ⟨?_, ?_⟩
  · exact ask_isOk_iff_of_uncached reachable_shallowAsked feesFit_shallowAsked (fun _ _ => rfl)
      (pinnedRoutes?_shallowAsked 1000) (by decide) (by decide)
      (fun hmethod => nomatch hmethod) (ask_shallowAsked_uncached 1000 (by simp))
  · exact ask_isOk_iff_of_uncached reachable_shallowAsked feesFit_shallowAsked (fun _ _ => rfl)
      (pinnedRoutes?_shallowAsked 9999) (by decide) (by decide)
      (fun hmethod => nomatch hmethod) (ask_shallowAsked_uncached 9999 (by simp))

theorem caches_shallowAsked : shallowAsked.memory.caches
    = (shallow.rankRequest 0 .background (shallowRequest 9999) shallow.memory).2.caches :=
  caches_ask (q := shallowRequest 9999) (by decide +kernel) (by decide +kernel)

theorem cachedFor_shallowAsked :
    (shallowAsked.cachedFor 0 (shallowRequest 1000) shallowAsked.memory.caches).ranked
      = some [⟨[⟨1, "m"⟩, ⟨2, "out"⟩]⟩] := by
  rw [caches_shallowAsked]
  show (shallow.cachedFor 0 (shallowRequest 1000)
    (shallow.rankRequest 0 .background (shallowRequest 9999) shallow.memory).2.caches).ranked = _
  decide +kernel

/-- The kept route fits and pays nothing for the smaller order, so the request fails, although a search
would find the route that pays. -/
theorem shallowAsked_fails_from_cache :
    shallowAsked.Reachable ∧
      (∃ quote, (shallowAsked.ask 0 .background (.best (shallowRequest 1000).uncached)).1 = .ok quote) ∧
      (shallowAsked.ask 0 .background (.best (shallowRequest 1000))).1 = .error (.nothingQuoted 1) := by
  refine ⟨reachable_shallowAsked, ask_shallowAsked_uncached 1000 (by simp), ?_⟩
  have hkept : shallowAsked.keptBy .background (shallowRequest 1000)
      (some [⟨[⟨1, "m"⟩, ⟨2, "out"⟩]⟩]) = some (.error (.nothingQuoted 1)) := by
    show shallow.keptBy .background (shallowRequest 1000)
      (some [⟨[⟨1, "m"⟩, ⟨2, "out"⟩]⟩]) = some (.error (.nothingQuoted 1))
    decide +kernel
  have hranking : shallowAsked.rankingBy .background (shallowRequest 1000)
      (shallowAsked.cachedFor 0 (shallowRequest 1000) shallowAsked.memory.caches)
      = .error (.nothingQuoted 1) := by
    rw [rankingBy, cachedFor_shallowAsked, hkept]
    rfl
  show (shallowAsked.answer 0 .background (shallowRequest 1000) shallowAsked.memory).1 = _
  rw [answer_of_ranked (validateRequest_shallowAsked 1000 (by decide))
    (pinnedRoutes?_shallowAsked 1000)]
  exact quoteRanked_of_error ((rankRequest_fst ..).trans hranking)

end Router

end SwapRouting
