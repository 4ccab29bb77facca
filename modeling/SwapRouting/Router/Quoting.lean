import SwapRouting.Quote
import SwapRouting.Router.Candidates

/-! Quotes of the router.

Pinned routes come first and are never split. Otherwise routes are ranked, either those kept for the
same direction, method and power of ten, or freshly searched ones of which no two share a pool; then the
amount is split over them. -/
namespace SwapRouting
set_option autoImplicit false

/-- A request for the best quote. -/
structure QuoteRequest where
  method : SwapMethod
  denomIn : Denom
  denomOut : Denom
  /-- The fixed side: what goes in, or what comes out. -/
  amount : Nat
  options : QuoteOptions
  /-- Whether the amount may be shared among several routes. -/
  allowSplit : Bool
deriving Repr, DecidableEq, Inhabited

namespace QuoteRequest

def order (q : QuoteRequest) : SwapOrder := ⟨q.method, q.denomIn, q.amount⟩

def rankedKey (q : QuoteRequest) : RankedKey :=
  RankedKey.of q.denomIn q.denomOut q.method q.amount

/-- The name under which the quote is counted. -/
def timedAs (q : QuoteRequest) : QuoteMethod :=
  if q.allowSplit then
    match q.method with
    | .exactIn => .exactIn
    | .exactOut => .exactOut
  else .singleRoute

end QuoteRequest

namespace Router

/-- Equal denoms, a zero amount and unknown denoms are refused. -/
def validateRequest (r : Router) (denomIn denomOut : Denom) (amount : Nat) :
    Except RouterError Unit :=
  if denomIn = denomOut then .error (.equalDenoms denomIn)
  else if amount = 0 then .error .zeroAmount
  else if !r.tokens.accepts denomIn then .error (.unsupportedDenom denomIn)
  else if !r.tokens.accepts denomOut then .error (.unsupportedDenom denomOut)
  else .ok ()

def splitLimits (r : Router) (q : QuoteRequest) : SplitLimits where
  maxRoutes := if q.allowSplit then q.options.maxSplitRoutes.getD r.config.maxSplitRoutes else 1
  maxIterations := r.config.maxSplitIterations
  epsilon := r.config.convergenceEpsilon
  stepDivisor := r.config.initialStepDivisor

/-- The quote of these splits for an amount, in display units. -/
def prepareQuote (r : Router) (method : SwapMethod) (denomIn denomOut : Denom) (amount : Nat)
    (splits : List QuotedRoute) (m : Memory) : Except RouterError Quote × Memory :=
  let prepared := Quote.prepare method denomIn denomOut (r.tokens.scaling denomIn denomOut) splits
  (prepared.1.map (Quote.fixed amount), m.record prepared.2)

/-- Ranks the candidates that still fit the pools. -/
def rankCandidates (r : Router) (ctx : Context) (q : QuoteRequest) (routes : List Route)
    (m : Memory) : Except RouterError (List QuotedRoute) × Memory :=
  let ranked := rankRoutes ctx r.config.preferredPools q.order routes
  (ranked.1, m.record ranked.2)

/-! ## Pinned routes -/

/-- The quote of the best of the pinned routes. -/
def quotePinned (r : Router) (ctx : Context) (q : QuoteRequest) (pinned : List CandidateRoute)
    (m : Memory) : Except RouterError Quote × Memory :=
  let attached := attachAll r.market q.denomIn pinned
  let ranked := r.rankCandidates ctx q attached.1 (m.record attached.2)
  match ranked.1 with
  | .error e => (.error e, ranked.2)
  | .ok [] => (.error .emptyRanking, ranked.2)
  | .ok (best :: _) => r.prepareQuote q.method q.denomIn q.denomOut q.amount [best] ranked.2

/-- The routes pinned for the request. -/
def pinnedRoutes? (r : Router) (q : QuoteRequest) : Option (List CandidateRoute) :=
  if r.overwritesEnabled then r.overwrites.get? q.denomIn q.denomOut else none

/-! ## Ranked routes -/

def usesRankedCache (r : Router) (q : QuoteRequest) : Bool :=
  q.options.usesCache && r.config.routeCacheEnabled

/-- Ranks the routes that are kept for the request; none if there are none or none of them fits the
pools any more. -/
def rankKept (r : Router) (now : Nat) (ctx : Context) (q : QuoteRequest) (m : Memory) :
    Option (Except RouterError (List QuotedRoute)) × Memory :=
  let policy := r.config.cachePolicy
  let kept := m.caches.ranked? policy now q.rankedKey
  let m := { m with caches := m.caches.afterRanked policy now q.rankedKey }
  let m := m.record [.cacheLookup .ranked kept.isSome]
  match kept with
  | none => (none, m)
  | some routes =>
    let attached := attachAll r.market q.denomIn routes
    let m := m.record attached.2
    if attached.1.isEmpty then (none, m)
    else
      let ranked := r.rankCandidates ctx q attached.1 m
      (some ranked.1, ranked.2)

/-- Keeps the ranked routes for later requests. -/
def keepRanked (r : Router) (now : Nat) (q : QuoteRequest) (ranked : List QuotedRoute)
    (m : Memory) : Memory :=
  let routes := ranked.map fun s => s.route.candidate
  { m with caches := m.caches.setRanked r.config.cachePolicy now q.rankedKey routes }

/-- Ranks the candidates of the request, of which no two that stay share a pool. -/
def rankFresh (r : Router) (now : Nat) (ctx : Context) (q : QuoteRequest) (m : Memory) :
    Except RouterError (List QuotedRoute) × Memory :=
  let found := r.candidates now ctx q.denomIn q.denomOut q.options m
  match found.1 with
  | .error e => (.error e, found.2)
  | .ok routes =>
    let attached := attachAll r.market q.denomIn routes.routes
    let ranked := r.rankCandidates ctx q attached.1 (found.2.record attached.2)
    match ranked.1 with
    | .error e => (.error e, ranked.2)
    | .ok qs =>
      let apart := dropSharedPools qs
      (.ok apart, if r.usesRankedCache q then r.keepRanked now q apart ranked.2 else ranked.2)

/-- The ranked routes of the request. -/
def rankRequest (r : Router) (now : Nat) (ctx : Context) (q : QuoteRequest) (m : Memory) :
    Except RouterError (List QuotedRoute) × Memory :=
  if r.usesRankedCache q then
    let kept := r.rankKept now ctx q m
    match kept.1 with
    | some ranked => (ranked, kept.2)
    | none => r.rankFresh now ctx q kept.2
  else r.rankFresh now ctx q m

/-! ## The best quote -/

/-- The quote of the ranked routes of the request, split where that is better. -/
def quoteRanked (r : Router) (now : Nat) (ctx : Context) (q : QuoteRequest) (m : Memory) :
    Except RouterError Quote × Memory :=
  let ranked := r.rankRequest now ctx q m
  match ranked.1 with
  | .error e => (.error e, ranked.2)
  | .ok qs =>
    let split := optimize ctx (r.splitLimits q) q.order qs
    let m := ranked.2.record split.2
    match split.1 with
    | .error e => (.error e, m)
    | .ok splits => r.prepareQuote q.method q.denomIn q.denomOut q.amount splits m

/-- The best quote for a request. -/
def answer (r : Router) (now : Nat) (ctx : Context) (q : QuoteRequest) (m : Memory) :
    Except RouterError Quote × Memory :=
  match r.validateRequest q.denomIn q.denomOut q.amount with
  | .error e => (.error e, m)
  | .ok () =>
    match r.pinnedRoutes? q with
    | some pinned => r.quotePinned ctx q pinned m
    | none => r.quoteRanked now ctx q m

/-- Whether a result was cut short by a decimal out of range. -/
def outOfRange {α : Type} : Except RouterError α → Bool
  | .error .decimalRange => true
  | _ => false

/-- The best quote, counted as served unless a decimal left its range. -/
def quote (r : Router) (now : Nat) (ctx : Context) (q : QuoteRequest) :
    Except RouterError Quote × Memory :=
  let result := r.answer now ctx q r.memory
  (result.1, if outOfRange result.1 then result.2 else result.2.record [.quoteServed q.timedAs])

/-! ## Quotes along given pools -/

/-- The first identifier that occurred before. -/
def firstRepeated? (seen : List Nat) : List Nat → Option Nat
  | [] => none
  | id :: r => if seen.contains id then some id else firstRepeated? (id :: seen) r

/-- Hops through the pools in their order: every denom that a pool shares with the next one is tried
in turn. -/
def connect? (denomIn denomOut : Denom) : List Pool → Option (List Hop)
  | [] => none
  | [p] =>
    if p.holds denomIn && denomIn != denomOut && p.holds denomOut then some [⟨p.id, denomOut⟩]
    else none
  | p :: next :: rest =>
    if !p.holds denomIn then none
    else
      (p.denoms.filter fun d => d != denomIn && next.holds d).findSome? fun d =>
        (connect? d denomOut (next :: rest)).map (⟨p.id, d⟩ :: ·)

/-- The quote of one candidate for an input. -/
def quoteCandidate (r : Router) (ctx : Context) (tokenIn : Coin) (denomOut : Denom)
    (c : CandidateRoute) : Except RouterError Quote × Memory :=
  let split : Except RouterError QuotedRoute := do
    ctx.check .customQuote 0
    let route ← r.market.attach tokenIn.denom c
    let out ← liftSwap (route.amountOut tokenIn.denom tokenIn.amount)
    .ok ⟨route, tokenIn.amount, out⟩
  match split with
  | .error e => (.error e, r.memory)
  | .ok s => r.prepareQuote .exactIn tokenIn.denom denomOut tokenIn.amount [s] r.memory

/-- The candidate through these pools in their order. -/
def customCandidate (r : Router) (tokenIn : Coin) (denomOut : Denom) (ids : List Nat) :
    Except RouterError CandidateRoute := do
  r.validateRequest tokenIn.denom denomOut tokenIn.amount
  if ids.isEmpty then .error .noPoolIds
  else
    match firstRepeated? [] ids with
    | some id => .error (.repeatedPool id)
    | none => do
      let pools ← ids.mapM r.pool
      let hops ← orError (.disconnected ids tokenIn.denom denomOut)
        (connect? tokenIn.denom denomOut pools)
      .ok ⟨hops⟩

/-- The quote of the route through these pools in their order. -/
def customQuote (r : Router) (ctx : Context) (tokenIn : Coin) (denomOut : Denom)
    (ids : List Nat) : Except RouterError Quote × Memory :=
  match r.customCandidate tokenIn denomOut ids with
  | .error e => (.error e, r.memory)
  | .ok c => r.quoteCandidate ctx tokenIn denomOut c

/-- The quote of one hop through a pool, whatever its liquidity. -/
def directQuote (r : Router) (ctx : Context) (tokenIn : Coin) (denomOut : Denom) (id : Nat) :
    Except RouterError Quote × Memory :=
  match r.validateRequest tokenIn.denom denomOut tokenIn.amount with
  | .error e => (.error e, r.memory)
  | .ok () => r.quoteCandidate ctx tokenIn denomOut ⟨[⟨id, denomOut⟩]⟩

end Router

end SwapRouting
