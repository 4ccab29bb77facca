import SwapRouting.Proofs.Split.Ranking

/-! Which ranking it is.

The quotes that pay something, in the order of the routes, determine the ranking: it holds exactly these, no
quote stands behind one that it outranks, and quotes of which neither outranks the other stay in the order
of their routes. There is no ranking without such a quote, and none where a fee of one of the routes leaves
the range of decimals. -/
namespace SwapRouting
set_option autoImplicit false

/-! ## Which quote stands first -/

namespace QuotedRoute

/-- Whether the route goes through a preferred pool. -/
def HoldsPreferred (preferred : List Nat) (q : QuotedRoute) : Prop :=
  ∃ id ∈ q.route.poolIds, id ∈ preferred

/-- Whether `a` has the better price: more output for the input, or less input for the output. -/
def BetterPriced (method : SwapMethod) (a b : QuotedRoute) : Prop :=
  match method with
  | .exactIn => b.amountOut < a.amountOut
  | .exactOut => a.amountIn < b.amountIn

/-- Whether `a` outranks `b`: by its price; among equal prices by fewer hops; then by a preferred pool; then
by the lower sum of pool identifiers. -/
inductive Outranks (method : SwapMethod) (preferred : List Nat) (a b : QuotedRoute) : Prop where
  | price (better : BetterPriced method a b)
  | hops (price : ¬ BetterPriced method b a) (fewer : a.route.length < b.route.length)
  | preferred (price : ¬ BetterPriced method b a) (hops : a.route.length = b.route.length)
      (holds : a.HoldsPreferred preferred) (lacks : ¬ b.HoldsPreferred preferred)
  | poolIds (price : ¬ BetterPriced method b a) (hops : a.route.length = b.route.length)
      (preferred : a.HoldsPreferred preferred ↔ b.HoldsPreferred preferred)
      (lower : a.route.poolIdSum < b.route.poolIdSum)

variable {method : SwapMethod} {preferred : List Nat} {a b : QuotedRoute}

theorem preference_eq_zero_iff : a.preference preferred = 0 ↔ a.HoldsPreferred preferred := by
  simp [preference, HoldsPreferred]

theorem preference_le_one (preferred : List Nat) (q : QuotedRoute) : q.preference preferred ≤ 1 := by
  rw [preference]
  split
  · exact Nat.zero_le 1
  · exact Nat.le_refl 1

theorem comparePrice_eq_lt_iff : comparePrice method a b = .lt ↔ BetterPriced method a b := by
  cases method with
  | exactIn => exact Nat.compare_eq_lt
  | exactOut => exact Nat.compare_eq_lt

theorem comparePrice_eq_eq_iff :
    comparePrice method a b = .eq ↔ ¬ BetterPriced method a b ∧ ¬ BetterPriced method b a := by
  cases method with
  | exactIn =>
    rw [comparePrice, Nat.compare_eq_eq, BetterPriced, BetterPriced]
    omega
  | exactOut =>
    rw [comparePrice, Nat.compare_eq_eq, BetterPriced, BetterPriced]
    omega

theorem preference_lt_iff : a.preference preferred < b.preference preferred ↔
    a.HoldsPreferred preferred ∧ ¬ b.HoldsPreferred preferred := by
  have hb := preference_le_one preferred b
  rw [← preference_eq_zero_iff, ← preference_eq_zero_iff]
  omega

theorem preference_eq_iff : a.preference preferred = b.preference preferred ↔
    (a.HoldsPreferred preferred ↔ b.HoldsPreferred preferred) := by
  have ha := preference_le_one preferred a
  have hb := preference_le_one preferred b
  rw [← preference_eq_zero_iff, ← preference_eq_zero_iff]
  omega

theorem compareRank_eq_lt_iff : compareRank method preferred a b = .lt ↔ a.Outranks method preferred b := by
  simp only [compareRank, Ordering.then_eq_lt, comparePrice_eq_lt_iff, comparePrice_eq_eq_iff,
    Nat.compare_eq_lt, Nat.compare_eq_eq, preference_lt_iff, preference_eq_iff]
  constructor
  · rintro (hbetter | ⟨⟨-, hprice⟩, hfewer | ⟨hhops, ⟨hholds, hlacks⟩ | ⟨hsame, hlower⟩⟩⟩)
    · exact .price hbetter
    · exact .hops hprice hfewer
    · exact .preferred hprice hhops hholds hlacks
    · exact .poolIds hprice hhops hsame hlower
  · intro h
    -- a later key counts among equal prices, and the cases say only that `b` has no better one
    by_cases hbetter : BetterPriced method a b
    · exact Or.inl hbetter
    · cases h with
      | price better => exact absurd better hbetter
      | hops price fewer => exact Or.inr ⟨⟨hbetter, price⟩, Or.inl fewer⟩
      | preferred price hops holds lacks =>
        exact Or.inr ⟨⟨hbetter, price⟩, Or.inr ⟨hops, Or.inl ⟨holds, lacks⟩⟩⟩
      | poolIds price hops preferred lower =>
        exact Or.inr ⟨⟨hbetter, price⟩, Or.inr ⟨hops, Or.inr ⟨preferred, lower⟩⟩⟩

instance : Decidable (a.Outranks method preferred b) := decidable_of_iff _ compareRank_eq_lt_iff

theorem swap_compareRank (method : SwapMethod) (preferred : List Nat) (a b : QuotedRoute) :
    (compareRank method preferred a b).swap = compareRank method preferred b a := by
  cases method with
  | exactIn => simp only [compareRank, comparePrice, Ordering.swap_then, Nat.compare_swap]
  | exactOut => simp only [compareRank, comparePrice, Ordering.swap_then, Nat.compare_swap]

theorem ranksBefore_iff : ranksBefore method preferred a b ↔ ¬ b.Outranks method preferred a := by
  rw [ranksBefore, ← compareRank_eq_lt_iff, ← swap_compareRank method preferred a b,
    Ordering.swap_eq_lt, Ordering.isLE_iff_ne_gt]

/-- Whether neither of two quotes outranks the other. -/
def Ties (method : SwapMethod) (preferred : List Nat) (a b : QuotedRoute) : Prop :=
  ¬ a.Outranks method preferred b ∧ ¬ b.Outranks method preferred a

instance : Decidable (a.Ties method preferred b) := inferInstanceAs (Decidable (_ ∧ _))

theorem ranksBefore_of_ties {q : QuotedRoute} (ha : q.Ties method preferred a)
    (hb : q.Ties method preferred b) : ranksBefore method preferred a b :=
  ranksBefore_trans (ranksBefore_iff.2 ha.1) (ranksBefore_iff.2 hb.2)

end QuotedRoute

/-! ## Rankings -/

/-- The ranking of the quotes that pay something: exactly these, best first, and where quotes tie in the
order of their routes. Ranking its routes again gives it back. -/
structure StableRanking (preferred : List Nat) (order : SwapOrder) (routes : List Route)
    (ranking : List QuotedRoute) : Prop where
  exact : ranking.Perm (payingQuotes order routes)
  sorted : ranking.Pairwise fun a b => ¬ b.Outranks order.method preferred a
  stable : ∀ q : QuotedRoute, (ranking.filter fun x => q.Ties order.method preferred x)
    = (payingQuotes order routes).filter fun x => q.Ties order.method preferred x
  again : ∀ ctx : Context, (∀ n, ctx.isDone .ranking n = false) →
    (rankRoutes ctx preferred order (ranking.map (·.route))).1 = .ok ranking

/-- What ranking some routes gives: it stops where a route is not quotable, it finds nothing exactly if all
are quotable and none pays, and otherwise it gives the ranking of those that pay. -/
structure RanksExactly (ctx : Context) (preferred : List Nat) (order : SwapOrder)
    (routes : List Route) : Prop where
  stops : (rankRoutes ctx preferred order routes).1 = .error .decimalRange ↔
    ∃ r ∈ routes, ¬ r.Quotable order
  findsNothing : (∃ e, (rankRoutes ctx preferred order routes).1 = .error e ∧ e.kind = .notFound) ↔
    (∀ r ∈ routes, r.Quotable order) ∧ ¬ ∃ q : QuotedRoute, q.route ∈ routes ∧ q.Pays order
  ranks : (∀ r ∈ routes, r.Quotable order) → (∃ q : QuotedRoute, q.route ∈ routes ∧ q.Pays order) →
    ∃ ranking, (rankRoutes ctx preferred order routes).1 = .ok ranking ∧
      StableRanking preferred order routes ranking

section
variable {ctx : Context} {order : SwapOrder} {routes : List Route}

theorem stableRanking_sortBy (preferred : List Nat) (hne : payingQuotes order routes ≠ []) :
    StableRanking preferred order routes
      (sortBy (ranksBefore order.method preferred) (payingQuotes order routes)) := by
  have hperm := sortBy_perm (ranksBefore order.method preferred) (payingQuotes order routes)
  have hsorted : Ranked order.method preferred
      (sortBy (ranksBefore order.method preferred) (payingQuotes order routes)) := ranked_sortBy _
  refine ⟨hperm, hsorted.imp QuotedRoute.ranksBefore_iff.1, ?_, ?_⟩
  · intro q
    refine filter_sortBy ?_ _
    intro a b ha hb
    exact QuotedRoute.ranksBefore_of_ties (of_decide_eq_true ha) (of_decide_eq_true hb)
  · intro ctx hctx
    refine rankRoutes_map_route hctx ?_ ?_ hsorted
    · exact fun hnil => hne (hnil ▸ hperm).symm.eq_nil
    · intro q hq
      exact (mem_payingQuotes_iff.1 (hperm.mem_iff.1 hq)).2

theorem rankRoutes_of_quotable (hctx : ∀ n, ctx.isDone .ranking n = false) (preferred : List Nat)
    (h : ∀ r ∈ routes, r.Quotable order) :
    (rankRoutes ctx preferred order routes).1 =
      if payingQuotes order routes = [] then .error (.nothingQuoted routes.length)
      else .ok (sortBy (ranksBefore order.method preferred) (payingQuotes order routes)) := by
  have hquoted := quoteAll_of_quotable hctx 0 h
  rw [rankRoutes]
  simp only [hquoted, List.isEmpty_iff]
  split
  · rfl
  · rfl

theorem rankRoutes_of_not_quotable (hctx : ∀ n, ctx.isDone .ranking n = false) (preferred : List Nat)
    (h : ∃ r ∈ routes, ¬ r.Quotable order) :
    (rankRoutes ctx preferred order routes).1 = .error .decimalRange := by
  rw [rankRoutes]
  simp only [quoteAll_of_not_quotable hctx 0 h]

/-- A request that is not over ranks exactly the routes that pay, whatever the routes, the method and the
amount. -/
theorem ranksExactly_of_not_done (hctx : ∀ n, ctx.isDone .ranking n = false) (preferred : List Nat)
    (order : SwapOrder) (routes : List Route) : RanksExactly ctx preferred order routes := by
  by_cases hstops : ∃ r ∈ routes, ¬ r.Quotable order
  · have hrank := rankRoutes_of_not_quotable hctx preferred hstops
    have hnot : ¬ ∀ r ∈ routes, r.Quotable order := by simpa using hstops
    refine ⟨⟨fun _ => hstops, fun _ => hrank⟩, ⟨?_, fun h => absurd h.1 hnot⟩,
      fun h => absurd h hnot⟩
    rintro ⟨e, he, hkind⟩
    cases hrank.symm.trans he
    cases hkind
  · have hquotable : ∀ r ∈ routes, r.Quotable order := by simpa using hstops
    have hrank := rankRoutes_of_quotable hctx preferred hquotable
    by_cases hnone : payingQuotes order routes = []
    · rw [if_pos hnone] at hrank
      have hpays := payingQuotes_eq_nil_iff.1 hnone
      refine ⟨⟨?_, fun h => absurd h hstops⟩, ⟨fun _ => ⟨hquotable, hpays⟩, fun _ => ⟨_, hrank, rfl⟩⟩,
        fun _ h => absurd h hpays⟩
      intro h
      cases hrank.symm.trans h
    · rw [if_neg hnone] at hrank
      refine ⟨⟨?_, fun h => absurd h hstops⟩, ⟨?_, ?_⟩,
        fun _ _ => ⟨_, hrank, stableRanking_sortBy preferred hnone⟩⟩
      · intro h
        cases hrank.symm.trans h
      · rintro ⟨e, he, -⟩
        cases hrank.symm.trans he
      · rintro ⟨-, h⟩
        exact absurd (payingQuotes_eq_nil_iff.2 h) hnone

end

/-! ## Three routes that pay the same -/

/-- A hop that pays one for one. -/
def evenHop (pool : Nat) (denomIn denomOut : Denom) : RouteHop :=
  ⟨PoolRecord.transmuter ⟨pool, .contract 7 .transmuter, [denomIn, denomOut],
    [⟨denomIn, 1000⟩, ⟨denomOut, 1000⟩], Decimal.zero, 0⟩, denomOut, Decimal.zero⟩

/-- Two routes of two hops with the same sum of identifiers, and one of one hop. -/
def evenRoutes : List Route :=
  [⟨[evenHop 2 "a" "x", evenHop 3 "x" "b"], false⟩, ⟨[evenHop 1 "a" "x", evenHop 4 "x" "b"], false⟩,
    ⟨[evenHop 9 "a" "b"], false⟩]

theorem evenRoutes_ranksExactly :
    (rankRoutes .background [] ⟨.exactIn, "a", 100⟩ evenRoutes).1.toOption.map
        (fun ranking => ranking.map fun q => q.route.poolIds) = some [[9], [2, 3], [1, 4]] ∧
      RanksExactly .background [] ⟨.exactIn, "a", 100⟩ evenRoutes :=
  ⟨rfl, ranksExactly_of_not_done (fun _ => rfl) [] ⟨.exactIn, "a", 100⟩ evenRoutes⟩

def Decimal.least : Decimal where
  coefficient := -79228162514264337593543950335
  scale := 0
  coefficient_lt := Nat.le_of_ble_eq_true rfl
  scale_le := Nat.zero_le _

/-- A hop through a constant product with the least spread there is. -/
def leastSpreadHop : RouteHop :=
  ⟨PoolRecord.constantProduct ⟨2, .constantProduct, ["a", "b"], [⟨"a", 1000⟩, ⟨"b", 1000⟩],
    Decimal.least, 0⟩, "b", Decimal.zero⟩

/-- The first route pays, and there is no ranking, because one minus the spread on the second route is no
decimal. -/
theorem leastSpread_stopsRanking :
    (∃ q : QuotedRoute, q.route ∈ [⟨[evenHop 1 "a" "b"], false⟩, ⟨[leastSpreadHop], false⟩] ∧
        q.Pays ⟨.exactIn, "a", 100⟩) ∧
      (rankRoutes .background [] ⟨.exactIn, "a", 100⟩
        [⟨[evenHop 1 "a" "b"], false⟩, ⟨[leastSpreadHop], false⟩]).1 = .error .decimalRange := by
  have hpays : QuotedRoute.Pays ⟨⟨[evenHop 1 "a" "b"], false⟩, 100, 100⟩ ⟨.exactIn, "a", 100⟩ :=
    ⟨rfl, by decide⟩
  have hfails : Route.quoteFor ⟨[leastSpreadHop], false⟩ .exactIn "a" 100 = .error .decimalRange := rfl
  refine ⟨⟨_, List.mem_cons_self .., hpays⟩, ?_⟩
  exact rankRoutes_of_not_quotable (fun _ => rfl) []
    ⟨_, List.mem_cons_of_mem _ (List.mem_singleton.2 rfl), fun h => h hfails⟩

end SwapRouting
