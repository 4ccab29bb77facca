import SwapRouting.Split.Ranking

/-! Rebalancing: an amount shared among routes, moved step by step to where it is worth most.

The amount starts in equal shares. Each round moves one step from the route that loses least by it to
the route that gains most, as long as that pays; when it does not, the step is halved, and at a step of
one the rounds end. What a share is worth is its output, or the input it takes counted negatively. -/
namespace SwapRouting
set_option autoImplicit false

/-- Bounds on a split. -/
structure SplitLimits where
  maxRoutes : Nat
  maxIterations : Nat
  /-- A move has to gain more than this. -/
  epsilon : Nat
  /-- The first step is the amount over this many times the number of routes. -/
  stepDivisor : Nat
deriving Repr, DecidableEq, Inhabited

/-- The largest worth: 2 ^ 127 - 1. -/
abbrev worthBound : Nat := 170141183460469231731687303715884105727

/-- What a quoted share is worth. -/
def QuotedRoute.worth (method : SwapMethod) (q : QuotedRoute) : Int :=
  match method with
  | .exactIn => (min q.amountOut worthBound : Nat)
  | .exactOut => -((min q.amountIn worthBound : Nat) : Int)

/-- What a share of the order is worth on a route. -/
def Route.worth (r : Route) (order : SwapOrder) (share : Nat) : Except SwapError Int :=
  (r.quoteFor order.method order.denomIn share).map (·.worth order.method)

/-! ## Legs -/

/-- A route with its share, the worth of it, and the change of worth when the share grows or shrinks
by one step, where that is possible. -/
structure Leg where
  route : Route
  share : Nat
  worth : Int
  gain : Option Int
  loss : Option Int
deriving Repr, DecidableEq

/-- The leg with its gain and its loss for a step. -/
def Leg.measured (order : SwapOrder) (step : Nat) (l : Leg) : Leg :=
  { l with
    gain :=
      if l.share + step ≤ order.amount then
        ((l.route.worth order (l.share + step)).toOption).map (· - l.worth)
      else none
    loss :=
      if step ≤ l.share then
        ((l.route.worth order (l.share - step)).toOption).map (l.worth - ·)
      else none }

/-- The entry with the greatest number, the first of several. -/
def firstGreatest : List (Nat × Int) → Option (Nat × Int)
  | [] => none
  | c :: r =>
    match firstGreatest r with
    | none => some c
    | some b => if c.2 < b.2 then some b else some c

/-- The leg that gains most by one more step, with its gain. -/
def receiver? (legs : List Leg) : Option (Nat × Int) :=
  firstGreatest (legs.zipIdx.filterMap fun (l, i) => l.gain.map fun g => (i, g))

/-- The leg that loses least by one step less, with its loss counted negatively. -/
def donor? (receiver : Nat) (legs : List Leg) : Option (Nat × Int) :=
  firstGreatest (legs.zipIdx.filterMap fun (l, i) =>
    if i = receiver then none else l.loss.map fun x => (i, -x))

/-! ## Rounds -/

/-- Legs under way, with the size of a step and the number of rounds so far. -/
structure Balance where
  legs : List Leg
  step : Nat
  rounds : Nat
deriving Repr, DecidableEq

/-- A step from one leg to another. -/
structure Move where
  receiver : Nat
  gain : Int
  donor : Nat
  loss : Int
deriving Repr, DecidableEq

/-- The best move, if it gains more than `epsilon`. Gain and worth stay within the largest worth. -/
def move? (epsilon : Nat) (legs : List Leg) : Option Move := do
  let (r, gain) ← receiver? legs
  let (d, negLoss) ← donor? r legs
  if ((min epsilon worthBound : Nat) : Int) < min (gain + negLoss) worthBound then
    some ⟨r, gain, d, -negLoss⟩
  else none

/-- The legs after a move. -/
def moved (order : SwapOrder) (step : Nat) (m : Move) (legs : List Leg) : List Leg :=
  legs.mapIdx fun i l =>
    if i = m.receiver then
      ({ l with share := l.share + step, worth := l.worth + m.gain } : Leg).measured order step
    else if i = m.donor then
      ({ l with share := l.share - step, worth := l.worth - m.loss } : Leg).measured order step
    else l

/-- One round; none once a step of one does not pay any more. -/
def Balance.round (order : SwapOrder) (epsilon : Nat) (b : Balance) : Balance × Bool :=
  match move? epsilon b.legs with
  | some m => (⟨moved order b.step m b.legs, b.step, b.rounds + 1⟩, true)
  | none =>
    if b.step = 1 then ({ b with rounds := b.rounds + 1 }, false)
    else (⟨b.legs.map (Leg.measured order (b.step / 2)), b.step / 2, b.rounds + 1⟩, true)

/-- At most `n` rounds. They end early when no step pays any more or when the context is over. -/
def Balance.run (ctx : Context) (order : SwapOrder) (epsilon : Nat) : Nat → Balance → Balance
  | 0, b => b
  | n + 1, b =>
    if ctx.isDone .rebalancing b.rounds then b
    else
      let next := b.round order epsilon
      if next.2 then Balance.run ctx order epsilon n next.1 else next.1

/-! ## The start -/

/-- Equal shares; the first routes take one more each until the remainder is used up. -/
def equalShares (total n : Nat) : List Nat :=
  (List.range n).map fun i => total / n + (if i < total % n then 1 else 0)

/-- The routes with equal shares. -/
def withEqualShares (total : Nat) (routes : List Route) : List (Route × Nat) :=
  routes.zip (equalShares total routes.length)

/-- The leg of a route with a share it can be quoted for. -/
def startingLeg? (order : SwapOrder) (s : Route × Nat) : Option Leg :=
  ((s.1.worth order s.2).toOption).map fun w => ⟨s.1, s.2, w, none, none⟩

/-- The routes that can be quoted for their equal shares. -/
def quotable (order : SwapOrder) (routes : List Route) : List Route :=
  ((withEqualShares order.amount routes).filter fun s => (startingLeg? order s).isSome).map (·.1)

/-- Whether a share meets a decimal out of range. -/
def meetsDecimalRange (order : SwapOrder) (s : Route × Nat) : Bool :=
  match s.1.worth order s.2 with
  | .error .decimalRange => true
  | _ => false

theorem quotable_length_lt {order : SwapOrder} {routes : List Route}
    (h : (withEqualShares order.amount routes).all (fun s => (startingLeg? order s).isSome) = false) :
    (quotable order routes).length < routes.length := by
  have hlt : ((withEqualShares order.amount routes).filter
      fun s => (startingLeg? order s).isSome).length
        < (withEqualShares order.amount routes).length := by
    rw [List.length_filter_lt_length_iff_exists]
    simpa using h
  have hle : (withEqualShares order.amount routes).length ≤ routes.length := by
    rw [withEqualShares, List.length_zip]
    exact Nat.min_le_left ..
  rw [quotable, List.length_map]
  omega

/-- The routes that can be quoted for equal shares among themselves, with these shares; none with
fewer than two. Every round that leaves routes out is recorded once. -/
def startingLegs (order : SwapOrder) (routes : List Route) :
    Except RouterError (Option (List Leg)) × Journal :=
  if routes.length < 2 then (.ok none, [])
  else
    let shares := withEqualShares order.amount routes
    if shares.any (meetsDecimalRange order) then (.error .decimalRange, [])
    else if _h : shares.all (fun s => (startingLeg? order s).isSome) then
      (.ok (some (shares.filterMap (startingLeg? order))), [])
    else
      let rest := startingLegs order (quotable order routes)
      (rest.1, .routeDropped .initialAllocation :: rest.2)
termination_by routes.length
decreasing_by exact quotable_length_lt (by simpa using _h)

/-- The first step. -/
def firstStep (limits : SplitLimits) (total n : Nat) : Nat :=
  max (total / (n * max limits.stepDivisor 1)) 1

/-- The amount of the order shared among the routes; none with fewer than two usable routes. -/
def rebalance (ctx : Context) (limits : SplitLimits) (order : SwapOrder) (routes : List Route) :
    Except RouterError (Option Balance) × Journal :=
  let start := startingLegs order routes
  match start.1 with
  | .error e => (.error e, start.2)
  | .ok none => (.ok none, start.2)
  | .ok (some legs) =>
    let step := firstStep limits order.amount legs.length
    let balance : Balance := ⟨legs.map (Leg.measured order step), step, 0⟩
    (.ok (some (balance.run ctx order limits.epsilon limits.maxIterations)), start.2)

end SwapRouting
