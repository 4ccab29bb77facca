import SwapRouting.Proofs.Route.Trade
import SwapRouting.Proofs.Sorting

/-! What a ranking holds and how it is ordered.

A ranking is a rearrangement of the routes that pay something, each quoted for the whole order, and it
is sorted by `compareRank`. Ranking routes that were ranked before, or some of them, gives them back in
the same order. Routes that stay after `dropSharedPools` have no pool in common. -/
namespace SwapRouting
set_option autoImplicit false

/-! ## The order of a ranking -/

section
variable {method : SwapMethod} {preferred : List Nat}

/-- Whether `a` may stand before `b` in a ranking. -/
def ranksBefore (method : SwapMethod) (preferred : List Nat) (a b : QuotedRoute) : Bool :=
  (compareRank method preferred a b).isLE

theorem ranksBefore_total (a b : QuotedRoute) :
    ranksBefore method preferred a b ∨ ranksBefore method preferred b a := by
  simp only [ranksBefore, compareRank]
  cases method <;>
    simp only [comparePrice, Ordering.isLE_then_iff_or, Nat.compare_eq_lt, Nat.compare_eq_eq,
      Nat.isLE_compare] <;> omega

theorem ranksBefore_trans {a b c : QuotedRoute} (hab : ranksBefore method preferred a b)
    (hbc : ranksBefore method preferred b c) : ranksBefore method preferred a c := by
  simp only [ranksBefore, compareRank] at hab hbc ⊢
  cases method <;>
    simp only [comparePrice, Ordering.isLE_then_iff_or, Nat.compare_eq_lt, Nat.compare_eq_eq,
      Nat.isLE_compare] at hab hbc ⊢ <;> omega

/-- Best first. -/
def Ranked (method : SwapMethod) (preferred : List Nat) (qs : List QuotedRoute) : Prop :=
  qs.Pairwise fun a b => ranksBefore method preferred a b

theorem ranked_sortBy (qs : List QuotedRoute) :
    Ranked method preferred (sortBy (ranksBefore method preferred) qs) :=
  pairwise_sortBy ranksBefore_total (fun _ _ _ => ranksBefore_trans) qs

end

/-! ## Quoting all routes -/

/-- The quote of a route that pays something for the whole order. -/
structure QuotedRoute.Pays (q : QuotedRoute) (order : SwapOrder) : Prop where
  quoted : q.route.quoteFor order.method order.denomIn order.amount = .ok q
  positive : q.amountOut ≠ 0

theorem quoteAll_spec {ctx : Context} {order : SwapOrder} {step : Nat} {routes : List Route}
    {qs : List QuotedRoute} (h : (quoteAll ctx order step routes).1 = .ok qs) :
    (qs.map (·.route)).Sublist routes ∧ ∀ q ∈ qs, q.Pays order := by
  induction routes generalizing step qs with
  | nil =>
    rw [quoteAll, Except.ok.injEq] at h
    subst h
    simp
  | cons r rest ih =>
    rw [quoteAll] at h
    split at h
    · cases h
    · split at h
      · cases h
      · obtain ⟨hsub, hall⟩ := ih h
        exact ⟨hsub.cons r, hall⟩
      · next q hq =>
        split at h
        · obtain ⟨hsub, hall⟩ := ih h
          exact ⟨hsub.cons r, hall⟩
        · next hpos =>
          simp only at h
          cases hrest : (quoteAll ctx order (step + 1) rest).1 with
          | error e =>
            rw [hrest] at h
            cases h
          | ok others =>
            rw [hrest] at h
            simp only [Except.map, Except.ok.injEq] at h
            subst h
            obtain ⟨hsub, hall⟩ := ih hrest
            have hroute := Route.route_of_quoteFor_eq_ok hq
            refine ⟨?_, ?_⟩
            · rw [List.map_cons, hroute]
              exact hsub.cons_cons r
            · intro x hx
              rcases List.mem_cons.1 hx with rfl | hx
              · exact ⟨hroute ▸ hq, hpos⟩
              · exact hall x hx

/-- Routes that all pay something are all quoted. -/
theorem quoteAll_map_route {ctx : Context} {order : SwapOrder} (hctx : ∀ n, ctx.isDone .ranking n = false)
    (step : Nat) {qs : List QuotedRoute} (h : ∀ q ∈ qs, q.Pays order) :
    (quoteAll ctx order step (qs.map (·.route))).1 = .ok qs := by
  induction qs generalizing step with
  | nil => rfl
  | cons q rest ih =>
    have hq := h q (List.mem_cons_self ..)
    have hrest := ih (step + 1) fun x hx => h x (List.mem_cons_of_mem _ hx)
    rw [List.map_cons, quoteAll, hctx step]
    simp only [Bool.false_eq_true, if_false, hq.quoted, hq.positive, hrest]
    rfl

/-! ## Quotes that pay -/

/-- Whether quoting the route stays in the range of decimals. -/
def Route.Quotable (r : Route) (order : SwapOrder) : Prop :=
  r.quoteFor order.method order.denomIn order.amount ≠ .error .decimalRange

/-- The quote of a route, if it pays something. -/
def Route.payingQuote? (r : Route) (order : SwapOrder) : Option QuotedRoute :=
  (r.quoteFor order.method order.denomIn order.amount).toOption.filter fun q => q.amountOut ≠ 0

/-- The quotes that pay something, in the order of their routes. -/
def payingQuotes (order : SwapOrder) (routes : List Route) : List QuotedRoute :=
  routes.filterMap (·.payingQuote? order)

section
variable {ctx : Context} {order : SwapOrder} {r : Route} {routes : List Route}
  {q : QuotedRoute}

theorem Route.payingQuote?_eq_some_iff : r.payingQuote? order = some q ↔ q.route = r ∧ q.Pays order := by
  rw [Route.payingQuote?, Option.filter_eq_some_iff, toOption_eq_some_iff, decide_eq_true_eq]
  constructor
  · rintro ⟨hquoted, hpositive⟩
    have hroute := Route.route_of_quoteFor_eq_ok hquoted
    exact ⟨hroute, hroute ▸ hquoted, hpositive⟩
  · rintro ⟨rfl, hquoted, hpositive⟩
    exact ⟨hquoted, hpositive⟩

theorem mem_payingQuotes_iff : q ∈ payingQuotes order routes ↔ q.route ∈ routes ∧ q.Pays order := by
  simp only [payingQuotes, List.mem_filterMap, Route.payingQuote?_eq_some_iff]
  constructor
  · rintro ⟨r, hr, rfl, hpays⟩
    exact ⟨hr, hpays⟩
  · rintro ⟨hr, hpays⟩
    exact ⟨q.route, hr, rfl, hpays⟩

theorem payingQuotes_eq_nil_iff :
    payingQuotes order routes = [] ↔ ¬ ∃ q : QuotedRoute, q.route ∈ routes ∧ q.Pays order := by
  simp only [← mem_payingQuotes_iff, List.eq_nil_iff_forall_not_mem, not_exists]

theorem payingQuotes_cons_of_some (h : r.payingQuote? order = some q) :
    payingQuotes order (r :: routes) = q :: payingQuotes order routes :=
  List.filterMap_cons_some h

theorem payingQuotes_cons_of_none (h : r.payingQuote? order = none) :
    payingQuotes order (r :: routes) = payingQuotes order routes :=
  List.filterMap_cons_none h

theorem quoteAll_of_quotable (hctx : ∀ n, ctx.isDone .ranking n = false) (step : Nat)
    (h : ∀ r ∈ routes, r.Quotable order) :
    (quoteAll ctx order step routes).1 = .ok (payingQuotes order routes) := by
  induction routes generalizing step with
  | nil => rfl
  | cons r rest ih =>
    obtain ⟨hr, hrest⟩ := List.forall_mem_cons.1 h
    have hothers := ih (step + 1) hrest
    rw [quoteAll, hctx step]
    simp only [Bool.false_eq_true, if_false]
    split
    · next hstops => exact absurd hstops hr
    · next hfails =>
      have hnone : r.payingQuote? order = none := by rw [Route.payingQuote?, hfails]; rfl
      rw [payingQuotes_cons_of_none hnone]
      exact hothers
    · next q hq =>
      split
      · next hzero =>
        have hnone : r.payingQuote? order = none := by
          simp [Route.payingQuote?, hq, Except.toOption, Option.filter, hzero]
        rw [payingQuotes_cons_of_none hnone]
        exact hothers
      · next hpositive =>
        have hsome : r.payingQuote? order = some q := by
          simp [Route.payingQuote?, hq, Except.toOption, Option.filter, hpositive]
        simp only [payingQuotes_cons_of_some hsome, hothers]
        rfl

/-- The first route that is not quotable ends the quoting of all. -/
theorem quoteAll_of_not_quotable (hctx : ∀ n, ctx.isDone .ranking n = false) (step : Nat)
    (h : ∃ r ∈ routes, ¬ r.Quotable order) :
    (quoteAll ctx order step routes).1 = .error .decimalRange := by
  induction routes generalizing step with
  | nil =>
    obtain ⟨r, hr, -⟩ := h
    cases hr
  | cons r rest ih =>
    rw [quoteAll, hctx step]
    simp only [Bool.false_eq_true, if_false]
    have hrest : r.Quotable order → (quoteAll ctx order (step + 1) rest).1 = .error .decimalRange := by
      intro hr
      obtain ⟨x, hx, hstops⟩ := h
      rcases List.mem_cons.1 hx with rfl | hx
      · exact absurd hr hstops
      · exact ih (step + 1) ⟨x, hx, hstops⟩
    split
    · rfl
    · next hne hfails => exact hrest fun hstops => hne (Except.error.inj (hfails.symm.trans hstops))
    · next q hq =>
      have hothers := hrest fun hstops => by cases hq.symm.trans hstops
      split
      · exact hothers
      · simp only [hothers]
        rfl

end

/-! ## Rankings -/

/-- What every ranking satisfies: it is not empty, it rearranges some of the routes, each of them pays
something, and it is sorted. -/
structure RankingOf (preferred : List Nat) (order : SwapOrder) (routes : List Route)
    (qs : List QuotedRoute) : Prop where
  ne_nil : qs ≠ []
  routes : ∃ some, (qs.map (·.route)).Perm some ∧ some.Sublist routes
  pays : ∀ q ∈ qs, q.Pays order
  sorted : Ranked order.method preferred qs

theorem rankRoutes_spec {ctx : Context} {preferred : List Nat} {order : SwapOrder}
    {routes : List Route} {qs : List QuotedRoute}
    (h : (rankRoutes ctx preferred order routes).1 = .ok qs) :
    RankingOf preferred order routes qs := by
  rw [rankRoutes] at h
  cases hquoted : (quoteAll ctx order 0 routes).1 with
  | error e =>
    rw [hquoted] at h
    cases h
  | ok quoted =>
    rw [hquoted] at h
    simp only at h
    split at h
    · cases h
    · next hne =>
      simp only [Except.ok.injEq] at h
      obtain ⟨hsub, hall⟩ := quoteAll_spec hquoted
      have hperm : qs.Perm quoted := h ▸ sortBy_perm _ quoted
      refine ⟨?_, ⟨_, hperm.map _, hsub⟩, ?_, ?_⟩
      · intro hnil
        rw [hnil] at hperm
        exact hne (by rw [hperm.symm.eq_nil]; rfl)
      · intro q hq
        exact hall q (hperm.mem_iff.1 hq)
      · rw [← h]
        exact ranked_sortBy quoted

/-- Routes are quoted for any order whose fees stay in the range of decimals, and those that pay are
among the quotes. -/
theorem quoteAll_isOk {ctx : Context} (hctx : ∀ n, ctx.isDone .ranking n = false)
    (order : SwapOrder) (step : Nat) {routes : List Route}
    (hfees : ∀ r ∈ routes, r.FeesInRange) :
    ∃ qs, (quoteAll ctx order step routes).1 = .ok qs ∧
      ∀ q : QuotedRoute, q.route ∈ routes → q.Pays order → q ∈ qs := by
  have hquotable : ∀ r ∈ routes, r.Quotable order := fun r hr =>
    Route.quoteFor_ne_decimalRange (hfees r hr) order.method order.denomIn order.amount
  refine ⟨_, quoteAll_of_quotable hctx step hquotable, ?_⟩
  intro q hroute hpays
  exact mem_payingQuotes_iff.2 ⟨hroute, hpays⟩

theorem RankingOf.mem_routes {preferred : List Nat} {order : SwapOrder} {routes : List Route}
    {qs : List QuotedRoute} (h : RankingOf preferred order routes qs) {q : QuotedRoute}
    (hq : q ∈ qs) : q.route ∈ routes := by
  obtain ⟨some, hperm, hsub⟩ := h.routes
  exact hsub.subset (hperm.mem_iff.1 (List.mem_map_of_mem hq))

/-- There is a ranking exactly if one of the routes pays something. -/
theorem rankRoutes_isOk_iff {ctx : Context} (hctx : ∀ n, ctx.isDone .ranking n = false)
    {preferred : List Nat} {order : SwapOrder} {routes : List Route}
    (hfees : ∀ r ∈ routes, r.FeesInRange) :
    (∃ qs, (rankRoutes ctx preferred order routes).1 = .ok qs) ↔
      ∃ q : QuotedRoute, q.route ∈ routes ∧ q.Pays order := by
  constructor
  · rintro ⟨qs, hqs⟩
    have hranking := rankRoutes_spec hqs
    obtain ⟨q, hq⟩ := List.exists_mem_of_ne_nil _ hranking.ne_nil
    exact ⟨q, hranking.mem_routes hq, hranking.pays q hq⟩
  · rintro ⟨q, hroute, hpays⟩
    obtain ⟨qs, hqs, hmem⟩ := quoteAll_isOk hctx order 0 hfees
    have hne : qs.isEmpty = false := List.isEmpty_eq_false_iff.2 (List.ne_nil_of_mem (hmem q hroute hpays))
    rw [rankRoutes]
    simp only [hqs, hne, Bool.false_eq_true, if_false]
    exact ⟨_, rfl⟩

/-- Ranking what was ranked before changes nothing. -/
theorem rankRoutes_map_route {ctx : Context} (hctx : ∀ n, ctx.isDone .ranking n = false)
    {preferred : List Nat} {order : SwapOrder} {qs : List QuotedRoute} (hne : qs ≠ [])
    (hpays : ∀ q ∈ qs, q.Pays order) (hsorted : Ranked order.method preferred qs) :
    (rankRoutes ctx preferred order (qs.map (·.route))).1 = .ok qs := by
  have hquoted := quoteAll_map_route hctx 0 hpays
  have hsort := sortBy_eq_self hsorted
  have hempty : qs.isEmpty = false := by
    cases qs with
    | nil => exact absurd rfl hne
    | cons q r => rfl
  rw [rankRoutes]
  simp only [hquoted, hempty, Bool.false_eq_true, if_false]
  exact congrArg Except.ok hsort

/-! ## Routes without a common pool -/

theorem any_contains_iff {ids used : List Nat} :
    ids.any used.contains = true ↔ ¬ List.Disjoint ids used := by
  simp [List.disjoint_left]

theorem keepDisjoint_sublist (used : List Nat) (qs : List QuotedRoute) :
    (keepDisjoint used qs).Sublist qs := by
  induction qs generalizing used with
  | nil => exact List.Sublist.refl _
  | cons q r ih =>
    rw [keepDisjoint]
    split
    · exact (ih used).cons q
    · exact (ih _).cons_cons q

theorem disjoint_of_mem_keepDisjoint {used : List Nat} {qs : List QuotedRoute} {q : QuotedRoute}
    (hq : q ∈ keepDisjoint used qs) : List.Disjoint q.route.poolIds used := by
  induction qs generalizing used with
  | nil => simp [keepDisjoint] at hq
  | cons x r ih =>
    rw [keepDisjoint] at hq
    split at hq
    · exact ih hq
    · next hfree =>
      rcases List.mem_cons.1 hq with rfl | hq
      · exact not_not.1 (mt any_contains_iff.2 hfree)
      · exact List.disjoint_of_subset_right (List.subset_append_right _ _) (ih hq)

theorem keepDisjoint_pairwise (used : List Nat) (qs : List QuotedRoute) :
    (keepDisjoint used qs).Pairwise fun a b => List.Disjoint a.route.poolIds b.route.poolIds := by
  induction qs generalizing used with
  | nil => exact List.Pairwise.nil
  | cons q r ih =>
    rw [keepDisjoint]
    split
    · exact ih used
    · refine List.Pairwise.cons ?_ (ih _)
      intro x hx
      have h := disjoint_of_mem_keepDisjoint hx
      exact List.disjoint_symm (List.disjoint_of_subset_right (List.subset_append_left _ _) h)

theorem dropSharedPools_sublist (qs : List QuotedRoute) : (dropSharedPools qs).Sublist qs :=
  keepDisjoint_sublist [] qs

/-- The first route of a ranking stays. -/
theorem dropSharedPools_cons (q : QuotedRoute) (r : List QuotedRoute) :
    ∃ rest, dropSharedPools (q :: r) = q :: rest := by
  refine ⟨keepDisjoint q.route.poolIds r, ?_⟩
  rw [dropSharedPools, keepDisjoint, if_neg (by simp), List.append_nil]

/-- No pool occurs twice among routes of which none repeats a pool and no two share one. -/
theorem nodup_dropSharedPools {qs : List QuotedRoute} (h : ∀ q ∈ qs, q.route.poolIds.Nodup) :
    ((dropSharedPools qs).flatMap fun q => q.route.poolIds).Nodup := by
  rw [List.nodup_flatMap]
  refine ⟨?_, keepDisjoint_pairwise [] qs⟩
  intro q hq
  exact h q ((dropSharedPools_sublist qs).subset hq)

/-- Dropping routes from a ranking leaves a ranking. -/
theorem RankingOf.dropSharedPools {preferred : List Nat} {order : SwapOrder} {routes : List Route}
    {qs : List QuotedRoute} (h : RankingOf preferred order routes qs) :
    RankingOf preferred order routes (dropSharedPools qs) := by
  have hsub := dropSharedPools_sublist qs
  obtain ⟨some, hperm, hroutes⟩ := h.routes
  refine ⟨?_, ?_, fun q hq => h.pays q (hsub.subset hq), h.sorted.sublist hsub⟩
  · cases qs with
    | nil => exact absurd rfl h.ne_nil
    | cons q r =>
      obtain ⟨rest, hrest⟩ := dropSharedPools_cons q r
      rw [hrest]
      exact List.cons_ne_nil q rest
  · obtain ⟨some', hperm', hsub'⟩ := (hsub.map (·.route)).subperm.trans hperm.subperm
    exact ⟨some', hperm'.symm, hsub'.trans hroutes⟩

end SwapRouting
