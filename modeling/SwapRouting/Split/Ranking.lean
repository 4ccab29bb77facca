import SwapRouting.Route.Price
import SwapRouting.SwapMethod

/-! Ranking: every route quoted for the whole amount, best first.

Routes that cannot be quoted or that pay nothing are left out, and each of them is recorded in the
journal. Equally good routes keep the order in which they were given. -/
namespace SwapRouting
set_option autoImplicit false

/-- A route with what goes into it and what comes out. -/
structure QuotedRoute where
  route : Route
  amountIn : Nat
  amountOut : Nat
deriving Repr, DecidableEq

/-- What is asked of a route: the method, the denom that goes in, and the fixed amount. -/
structure SwapOrder where
  method : SwapMethod
  denomIn : Denom
  amount : Nat
deriving Repr, DecidableEq, Inhabited

/-- The route quoted for an amount: the input it takes or the output it has to pay, by the method. -/
def Route.quoteFor (r : Route) (method : SwapMethod) (denomIn : Denom) (amount : Nat) :
    Except SwapError QuotedRoute :=
  match method with
  | .exactIn => do
    let out ← r.amountOut denomIn amount
    .ok ⟨r, amount, out⟩
  | .exactOut => do
    let needed ← r.requiredInput denomIn amount
    let out ← r.amountOut denomIn needed
    .ok ⟨r, needed, out⟩

/-! ## Which routes are ranked -/

/-- Quotes the routes for the whole amount; `step` counts the routes quoted before. -/
def quoteAll (ctx : Context) (order : SwapOrder) (step : Nat) :
    List Route → Except RouterError (List QuotedRoute) × Journal
  | [] => (.ok [], [])
  | r :: rest =>
    if ctx.isDone .ranking step then (.error (.cancelled .ranking), [])
    else
      match r.quoteFor order.method order.denomIn order.amount with
      | .error .decimalRange => (.error .decimalRange, [])
      | .error _ =>
        let others := quoteAll ctx order (step + 1) rest
        (others.1, .routeDropped .computation :: others.2)
      | .ok q =>
        let others := quoteAll ctx order (step + 1) rest
        if q.amountOut = 0 then (others.1, .routeDropped .zeroOutput :: others.2)
        else (others.1.map (q :: ·), others.2)

/-! ## Their order -/

/-- Zero for a route through a preferred pool, one for any other. -/
def QuotedRoute.preference (preferred : List Nat) (q : QuotedRoute) : Nat :=
  if q.route.poolIds.any preferred.contains then 0 else 1

/-- The order by price: more output or less input first. -/
def comparePrice (method : SwapMethod) (a b : QuotedRoute) : Ordering :=
  match method with
  | .exactIn => compare b.amountOut a.amountOut
  | .exactOut => compare a.amountIn b.amountIn

/-- The order of the ranking: the better price, then fewer hops, then preferred pools, then the lower
sum of pool identifiers. -/
def compareRank (method : SwapMethod) (preferred : List Nat) (a b : QuotedRoute) : Ordering :=
  (comparePrice method a b).then <|
    (compare a.route.length b.route.length).then <|
      (compare (a.preference preferred) (b.preference preferred)).then <|
        compare a.route.poolIdSum b.route.poolIdSum

/-- The routes that pay something for the order, best first. -/
def rankRoutes (ctx : Context) (preferred : List Nat) (order : SwapOrder) (routes : List Route) :
    Except RouterError (List QuotedRoute) × Journal :=
  let quoted := quoteAll ctx order 0 routes
  match quoted.1 with
  | .error e => (.error e, quoted.2)
  | .ok qs =>
    if qs.isEmpty then (.error (.nothingQuoted routes.length), quoted.2)
    else (.ok (sortBy (fun a b => (compareRank order.method preferred a b).isLE) qs), quoted.2)

/-! ## Routes without a common pool -/

/-- Leaves out every route that uses a pool of an earlier one that stays, or one of `used`. -/
def keepDisjoint (used : List Nat) : List QuotedRoute → List QuotedRoute
  | [] => []
  | q :: r =>
    if q.route.poolIds.any used.contains then keepDisjoint used r
    else q :: keepDisjoint (q.route.poolIds ++ used) r

/-- Leaves out every route that shares a pool with a better one that stays. -/
def dropSharedPools (ranked : List QuotedRoute) : List QuotedRoute := keepDisjoint [] ranked

end SwapRouting
