import SwapRouting.Proofs.Split.Rebalance
import SwapRouting.Split.Optimize

/-! What a split promises.

A balance shares the whole order and knows the worth of every share, so all of its shares can be quoted
again, and together they take or pay what the order fixes. The split is then either the best route alone
or strictly better than it. -/
namespace SwapRouting
set_option autoImplicit false

/-! ## Totals -/

/-- The sum of what goes in. -/
def sumIn (qs : List QuotedRoute) : Nat := (qs.map (·.amountIn)).sum

/-- The sum of what comes out. -/
def sumOut (qs : List QuotedRoute) : Nat := (qs.map (·.amountOut)).sum

theorem totalIn_eq_sumIn {qs : List QuotedRoute} (h : sumIn qs < Amount.bound) :
    totalIn qs = sumIn qs := Nat.mod_eq_of_lt h

theorem totalOut_eq_sumOut {qs : List QuotedRoute} (h : sumOut qs < Amount.bound) :
    totalOut qs = sumOut qs := Nat.mod_eq_of_lt h

theorem sumIn_cons (q : QuotedRoute) (qs : List QuotedRoute) :
    sumIn (q :: qs) = q.amountIn + sumIn qs := by
  simp [sumIn]

theorem sumOut_cons (q : QuotedRoute) (qs : List QuotedRoute) :
    sumOut (q :: qs) = q.amountOut + sumOut qs := by
  simp [sumOut]

theorem sumIn_single (q : QuotedRoute) : sumIn [q] = q.amountIn := by simp [sumIn]

theorem sumOut_single (q : QuotedRoute) : sumOut [q] = q.amountOut := by simp [sumOut]

/-- Whether the quotes together meet the fixed side of the order. -/
structure Meets (order : SwapOrder) (qs : List QuotedRoute) : Prop where
  takes : order.method = .exactIn → sumIn qs = order.amount
  pays : order.method = .exactOut → order.amount ≤ sumOut qs

theorem conserves_of_meets {order : SwapOrder} {qs : List QuotedRoute} (h : Meets order qs)
    (hin : sumIn qs < Amount.bound) (hout : sumOut qs < Amount.bound) :
    conserves order qs = true := by
  rw [conserves]
  cases hm : order.method with
  | exactIn => simp only [totalIn_eq_sumIn hin, h.takes hm, beq_self_eq_true]
  | exactOut => simpa only [totalOut_eq_sumOut hout, decide_eq_true_eq] using h.pays hm

/-- With a fixed input the total of what goes in is the input, so it cannot wrap around. -/
theorem conserves_of_exactIn {order : SwapOrder} {qs : List QuotedRoute} (h : Meets order qs)
    (hexact : order.method = .exactIn) (hamount : order.amount < Amount.bound) :
    conserves order qs = true := by
  have hsum := h.takes hexact
  have htotal : totalIn qs = order.amount := (totalIn_eq_sumIn (hsum ▸ hamount)).trans hsum
  rw [conserves]
  simp only [hexact, htotal]
  exact beq_self_eq_true order.amount

/-! ## Quoting the shares again -/

/-- The quotes of legs for their shares, those of zero left out. -/
structure Requoted (order : SwapOrder) (legs : List Leg) (qs : List QuotedRoute) : Prop where
  routes : (qs.map (·.route)).Sublist (legs.map (·.route))
  buys : ∀ q ∈ qs, q.route.amountOut order.denomIn q.amountIn = .ok q.amountOut
  takes : order.method = .exactIn → sumIn qs = (legs.map (·.share)).sum
  pays : order.method = .exactOut → (legs.map (·.share)).sum ≤ sumOut qs

theorem Requoted.skip {order : SwapOrder} {legs : List Leg} {qs : List QuotedRoute}
    (h : Requoted order legs qs) {l : Leg} (hl : l.share = 0) : Requoted order (l :: legs) qs := by
  refine ⟨?_, h.buys, ?_, ?_⟩
  · rw [List.map_cons]
    exact h.routes.cons _
  · intro hm
    rw [h.takes hm, List.map_cons, List.sum_cons, hl, Nat.zero_add]
  · intro hm
    rw [List.map_cons, List.sum_cons, hl, Nat.zero_add]
    exact h.pays hm

theorem Requoted.add {order : SwapOrder} {legs : List Leg} {qs : List QuotedRoute}
    (h : Requoted order legs qs) {l : Leg} {q : QuotedRoute}
    (hq : l.route.quoteFor order.method order.denomIn l.share = .ok q) :
    Requoted order (l :: legs) (q :: qs) := by
  have hroute := Route.route_of_quoteFor_eq_ok hq
  have hanswers := Route.quoteFor_answers hq
  refine ⟨?_, ?_, ?_, ?_⟩
  · rw [List.map_cons, List.map_cons, hroute]
    exact h.routes.cons_cons _
  · intro x hx
    rcases List.mem_cons.1 hx with rfl | hx
    · exact hanswers.buys
    · exact h.buys x hx
  · intro hm
    rw [sumIn_cons, hanswers.takes hm, h.takes hm, List.map_cons, List.sum_cons]
  · intro hm
    rw [sumOut_cons, List.map_cons, List.sum_cons]
    exact Nat.add_le_add (hanswers.pays hm) (h.pays hm)

/-- Legs that know the worth of their shares can all be quoted again. -/
theorem requote_isOk {order : SwapOrder} {legs : List Leg}
    (h : ∀ l ∈ legs, ∃ w, l.route.worth order l.share = .ok w) :
    ∃ qs, requote order legs = .ok qs ∧ Requoted order legs qs := by
  induction legs with
  | nil => exact ⟨[], rfl, List.Sublist.refl _, nofun, fun _ => rfl, fun _ => Nat.le_refl _⟩
  | cons l rest ih =>
    obtain ⟨qs, hqs, hrest⟩ := ih fun x hx => h x (List.mem_cons_of_mem _ hx)
    rw [requote]
    by_cases hzero : l.share = 0
    · rw [if_pos hzero]
      exact ⟨qs, hqs, hrest.skip hzero⟩
    · obtain ⟨w, hw⟩ := h l (List.mem_cons_self ..)
      obtain ⟨q, hq⟩ := quoteFor_of_worth_eq_ok hw
      rw [if_neg hzero, hq, hqs]
      exact ⟨q :: qs, rfl, hrest.add hq⟩

/-! ## Splits -/

/-- The quotes of a balance of the order. -/
def BalancedQuotes (ctx : Context) (limits : SplitLimits) (order : SwapOrder)
    (ranked qs : List QuotedRoute) : Prop :=
  ∃ b, (rebalance ctx limits order (splittable limits ranked)).1 = .ok (some b) ∧
    requote order b.legs = .ok qs

/-- A split over several routes that is kept. -/
structure Winning (ctx : Context) (limits : SplitLimits) (order : SwapOrder)
    (ranked : List QuotedRoute) (best : QuotedRoute) (splits : List QuotedRoute) : Prop where
  balanced : BalancedQuotes ctx limits order ranked splits
  several : 1 < splits.length
  beats : beats order splits best = true
  routes : (splits.map (·.route)).Sublist (splittable limits ranked)

/-- What the split of an order over a ranking with the first route `best` satisfies. -/
structure SplitOf (ctx : Context) (limits : SplitLimits) (order : SwapOrder)
    (ranked : List QuotedRoute) (best : QuotedRoute) (splits : List QuotedRoute) : Prop where
  routes : (splits.map (·.route)).Sublist (ranked.map (·.route))
  buys : ∀ q ∈ splits, q.route.amountOut order.denomIn q.amountIn = .ok q.amountOut
  meets : Meets order splits
  origin : splits = [best] ∨ Winning ctx limits order ranked best splits

section
variable {ctx : Context} {limits : SplitLimits} {preferred : List Nat} {order : SwapOrder}
variable {routes : List Route} {best : QuotedRoute} {rest splits : List QuotedRoute} {b : Balance}

theorem splittable_sublist (limits : SplitLimits) (ranked : List QuotedRoute) :
    (splittable limits ranked).Sublist (ranked.map (·.route)) :=
  (List.take_sublist _ _).trans List.filter_sublist

theorem length_splittable_le (limits : SplitLimits) (ranked : List QuotedRoute) :
    (splittable limits ranked).length ≤ limits.maxRoutes := List.length_take_le ..

theorem not_isGeneralized_of_mem_splittable {ranked : List QuotedRoute} {r : Route}
    (h : r ∈ splittable limits ranked) : r.isGeneralized = false := by
  simpa using (List.mem_filter.1 ((List.take_sublist _ _).subset h)).2

theorem splitOf_single (h : RankingOf preferred order routes (best :: rest)) :
    SplitOf ctx limits order (best :: rest) best [best] := by
  have hanswers := Route.quoteFor_answers (h.pays best (List.mem_cons_self ..)).quoted
  refine ⟨?_, ?_, ⟨?_, ?_⟩, Or.inl rfl⟩
  · exact (List.Sublist.cons_cons best (List.nil_sublist rest)).map _
  · intro q hq
    rw [List.mem_singleton.1 hq]
    exact hanswers.buys
  · intro hm
    rw [sumIn_single]
    exact hanswers.takes hm
  · intro hm
    rw [sumOut_single]
    exact hanswers.pays hm

/-- What settling a balance needs: its quotes, which meet the order. -/
theorem requote_of_rebalance
    (hb : (rebalance ctx limits order (splittable limits (best :: rest))).1 = .ok (some b)) :
    ∃ qs, requote order b.legs = .ok qs ∧ Meets order qs ∧
      (∀ q ∈ qs, q.route.amountOut order.denomIn q.amountIn = .ok q.amountOut) ∧
      (qs.map (·.route)).Sublist (splittable limits (best :: rest)) := by
  obtain ⟨kept, hsub, hshares⟩ := rebalance_spec hb
  have hworth : ∀ l ∈ b.legs, ∃ w, l.route.worth order l.share = .ok w :=
    fun l hl => ⟨l.worth, (hshares.measures l hl).worth⟩
  obtain ⟨qs, hqs, hquoted⟩ := requote_isOk hworth
  refine ⟨qs, hqs, ⟨?_, ?_⟩, hquoted.buys, ?_⟩
  · rw [← hshares.total]
    exact hquoted.takes
  · rw [← hshares.total]
    exact hquoted.pays
  · rw [← hshares.routes] at hsub
    exact hquoted.routes.trans hsub

/-- How a split comes about: the best route alone, an error of rebalancing, or a balance settled. -/
theorem optimize_cases (ctx : Context) (limits : SplitLimits) (order : SwapOrder)
    (best : QuotedRoute) (rest : List QuotedRoute) :
    (optimize ctx limits order (best :: rest)).1 = .ok [best] ∨
    (∃ e, (rebalance ctx limits order (splittable limits (best :: rest))).1 = .error e ∧
      (optimize ctx limits order (best :: rest)).1 = .error e) ∨
    ∃ b, (rebalance ctx limits order (splittable limits (best :: rest))).1 = .ok (some b) ∧
      (optimize ctx limits order (best :: rest)).1 = settle order best b := by
  rw [optimize]
  simp only
  split
  · exact Or.inl rfl
  · split
    · exact Or.inl rfl
    · cases hb : (rebalance ctx limits order (splittable limits (best :: rest))).1 with
      | error e => exact Or.inr (Or.inl ⟨e, rfl, rfl⟩)
      | ok o =>
        cases o with
        | none => exact Or.inl rfl
        | some b => exact Or.inr (Or.inr ⟨b, rfl, rfl⟩)

/-- Every split that is returned has the promised properties. -/
theorem splitOf_of_optimize_eq_ok (h : RankingOf preferred order routes (best :: rest))
    (hsplits : (optimize ctx limits order (best :: rest)).1 = .ok splits) :
    SplitOf ctx limits order (best :: rest) best splits := by
  rcases optimize_cases ctx limits order best rest with h1 | ⟨e, -, h1⟩ | ⟨b, hb, h1⟩
  · rw [h1, Except.ok.injEq] at hsplits
    rw [← hsplits]
    exact splitOf_single h
  · rw [h1] at hsplits
    cases hsplits
  · obtain ⟨qs, hqs, hmeets, hbuys, hsub⟩ := requote_of_rebalance hb
    rw [h1, settle, hqs] at hsplits
    simp only [bind, Except.bind] at hsplits
    split at hsplits
    · cases hsplits
    · split at hsplits
      · next hbeats =>
        rw [Except.ok.injEq] at hsplits
        subst hsplits
        rw [Bool.and_eq_true, decide_eq_true_eq] at hbeats
        exact ⟨hsub.trans (splittable_sublist limits _), hbuys, hmeets,
          Or.inr ⟨⟨b, hb, hqs⟩, hbeats.1, hbeats.2, hsub⟩⟩
      · rw [Except.ok.injEq] at hsplits
        rw [← hsplits]
        exact splitOf_single h

/-- A split is returned wherever the quotes of a balance pass the check of their totals. -/
theorem optimize_isOk (h : RankingOf preferred order routes (best :: rest))
    (hconserves : ∀ qs, BalancedQuotes ctx limits order (best :: rest) qs → Meets order qs →
      conserves order qs = true) :
    ∃ splits, (optimize ctx limits order (best :: rest)).1 = .ok splits := by
  rcases optimize_cases ctx limits order best rest with h1 | ⟨e, he, -⟩ | ⟨b, hb, h1⟩
  · exact ⟨[best], h1⟩
  · have hfees : ∀ r ∈ splittable limits (best :: rest), r.FeesInRange := by
      intro r hr
      obtain ⟨q, hq, rfl⟩ := List.mem_map.1 ((splittable_sublist limits _).subset hr)
      exact Route.feesInRange_of_quoteFor_eq_ok (h.pays q hq).quoted
    obtain ⟨o, ho⟩ := rebalance_isOk ctx limits order hfees
    rw [ho] at he
    cases he
  · obtain ⟨qs, hqs, hmeets, -⟩ := requote_of_rebalance hb
    rw [h1, settle, hqs]
    simp only [bind, Except.bind, hconserves qs ⟨b, hb, hqs⟩ hmeets, Bool.not_true, Bool.false_eq_true,
      if_false]
    split
    · exact ⟨qs, rfl⟩
    · exact ⟨[best], rfl⟩

end

/-! ## The promise -/

/-- Whether the totals of what a balance of the order is quoted for are amounts. -/
def SplitTotalsFit (ctx : Context) (limits : SplitLimits) (order : SwapOrder)
    (ranked : List QuotedRoute) : Prop :=
  ∀ qs, BalancedQuotes ctx limits order ranked qs →
    sumIn qs < Amount.bound ∧ sumOut qs < Amount.bound

/-- Whether the quotes together are no worse than `best`. -/
def NoWorse (method : SwapMethod) (qs : List QuotedRoute) (best : QuotedRoute) : Prop :=
  match method with
  | .exactIn => best.amountOut ≤ sumOut qs
  | .exactOut => sumIn qs ≤ best.amountIn

/-- Whether the quotes together are strictly better than `best`. -/
def Better (method : SwapMethod) (qs : List QuotedRoute) (best : QuotedRoute) : Prop :=
  match method with
  | .exactIn => best.amountOut < sumOut qs
  | .exactOut => sumIn qs < best.amountIn

/-- A split that meets the order and is no worse than the best route alone. Several routes are strictly
better, stand at different places of the ranking, need no call to the chain and are no more than the
limits allow. -/
structure GoodSplit (limits : SplitLimits) (order : SwapOrder) (ranked : List QuotedRoute)
    (best : QuotedRoute) (splits : List QuotedRoute) : Prop where
  meets : Meets order splits
  noWorse : NoWorse order.method splits best
  better : 1 < splits.length → Better order.method splits best
  distinct : 1 < splits.length → (splits.map (·.route)).Sublist (ranked.map (·.route))
  callFree : 1 < splits.length → ∀ s ∈ splits, s.route.isGeneralized = false
  few : 1 < splits.length → splits.length ≤ limits.maxRoutes

theorem better_of_beats {order : SwapOrder} {qs : List QuotedRoute} {best : QuotedRoute}
    (hfit : sumIn qs < Amount.bound) (h : beats order qs best = true) :
    Better order.method qs best := by
  rw [beats] at h
  cases hm : order.method with
  | exactIn =>
    simp only [hm, decide_eq_true_eq] at h
    have hle : totalOut qs ≤ sumOut qs := Nat.mod_le ..
    show best.amountOut < sumOut qs
    omega
  | exactOut =>
    simp only [hm, decide_eq_true_eq, totalIn_eq_sumIn hfit] at h
    exact h

theorem noWorse_of_better {method : SwapMethod} {qs : List QuotedRoute} {best : QuotedRoute}
    (h : Better method qs best) : NoWorse method qs best := by
  cases method with
  | exactIn => exact Nat.le_of_lt h
  | exactOut => exact Nat.le_of_lt h

theorem goodSplit_single {limits : SplitLimits} {order : SwapOrder} {ranked : List QuotedRoute}
    {best : QuotedRoute} (h : Meets order [best]) : GoodSplit limits order ranked best [best] := by
  have hone : ¬ 1 < [best].length := by simp
  refine ⟨h, ?_, fun hlt => absurd hlt hone, fun hlt => absurd hlt hone, fun hlt => absurd hlt hone,
    fun hlt => absurd hlt hone⟩
  cases order.method with
  | exactIn => exact Nat.le_of_eq (sumOut_single best).symm
  | exactOut => exact Nat.le_of_eq (sumIn_single best)

theorem Winning.goodSplit {ctx : Context} {limits : SplitLimits} {order : SwapOrder}
    {ranked splits : List QuotedRoute} {best : QuotedRoute}
    (h : Winning ctx limits order ranked best splits) (hmeets : Meets order splits)
    (hfit : SplitTotalsFit ctx limits order ranked) : GoodSplit limits order ranked best splits := by
  have hbetter := better_of_beats (hfit splits h.balanced).1 h.beats
  refine ⟨hmeets, noWorse_of_better hbetter, fun _ => hbetter,
    fun _ => h.routes.trans (splittable_sublist limits ranked), fun _ s hs => ?_, fun _ => ?_⟩
  · exact not_isGeneralized_of_mem_splittable (h.routes.subset (List.mem_map_of_mem hs))
  · have hle := h.routes.length_le
    rw [List.length_map] at hle
    exact hle.trans (length_splittable_le limits ranked)

/-- The split of every ranking, with or without the routes that share a pool, succeeds and is good. -/
theorem optimize_isOk_goodSplit {ctx ctx' : Context} {limits : SplitLimits} {preferred : List Nat}
    {order : SwapOrder} {routes : List Route} {qs ranked : List QuotedRoute}
    (hrank : (rankRoutes ctx' preferred order routes).1 = .ok qs)
    (hranked : ranked = qs ∨ ranked = dropSharedPools qs)
    (hfit : SplitTotalsFit ctx limits order ranked) :
    ∃ best splits, ranked.head? = some best ∧
      (optimize ctx limits order ranked).1 = .ok splits ∧
      GoodSplit limits order ranked best splits := by
  have hof : RankingOf preferred order routes ranked := by
    rcases hranked with rfl | rfl
    · exact rankRoutes_spec hrank
    · exact (rankRoutes_spec hrank).dropSharedPools
  cases ranked with
  | nil => exact absurd rfl hof.ne_nil
  | cons best rest =>
    have hconserves : ∀ qs, BalancedQuotes ctx limits order (best :: rest) qs → Meets order qs →
        conserves order qs = true :=
      fun qs hqs hmeets => conserves_of_meets hmeets (hfit qs hqs).1 (hfit qs hqs).2
    obtain ⟨splits, hsplits⟩ := optimize_isOk hof hconserves
    have hsplit := splitOf_of_optimize_eq_ok hof hsplits
    refine ⟨best, splits, rfl, hsplits, ?_⟩
    rcases hsplit.origin with hsingle | hwinning
    · rw [hsingle]
      exact goodSplit_single (hsingle ▸ hsplit.meets)
    · exact hwinning.goodSplit hsplit.meets hfit

/-! ## Two equal pools -/

/-- A route through one of several equal pools. -/
def twinRoute (id : Nat) : Route :=
  ⟨[⟨PoolRecord.constantProduct ⟨id, .constantProduct, ["a", "b"], [⟨"a", 1000⟩, ⟨"b", 1000⟩],
    Decimal.zero, 0⟩, "b", Decimal.zero⟩], false⟩

def twinOrder : SwapOrder := ⟨.exactOut, "a", 100⟩

def twinLimits : SplitLimits := ⟨3, 64, 0, 4⟩

/-- Either route alone takes 112. -/
def twinRanking : List QuotedRoute := [⟨twinRoute 1, 112, 100⟩, ⟨twinRoute 2, 112, 100⟩]

theorem rankRoutes_twins :
    (rankRoutes .background [] twinOrder [twinRoute 1, twinRoute 2]).1 = .ok twinRanking := by
  decide +kernel

theorem splitTotalsFit_twins : SplitTotalsFit .background twinLimits twinOrder twinRanking := by
  rintro qs ⟨b, hb, hqs⟩
  have hquotes : ((rebalance .background twinLimits twinOrder
      (splittable twinLimits twinRanking)).1.toOption.join.map
        fun b => (requote twinOrder b.legs).toOption)
      = some (some [⟨twinRoute 1, 53, 50⟩, ⟨twinRoute 2, 53, 50⟩]) := by
    decide +kernel
  rw [hb] at hquotes
  simp only [Except.toOption, Option.join_some, Option.map_some, hqs, Option.some.injEq] at hquotes
  subst hquotes
  simp only [sumIn, sumOut, List.map_cons, List.map_nil, List.sum_cons, List.sum_nil]
  decide

theorem twins_goodSplit :
    ∃ best splits, twinRanking.head? = some best ∧
      (optimize .background twinLimits twinOrder twinRanking).1 = .ok splits ∧
      GoodSplit twinLimits twinOrder twinRanking best splits :=
  optimize_isOk_goodSplit rankRoutes_twins (Or.inl rfl) splitTotalsFit_twins

end SwapRouting
