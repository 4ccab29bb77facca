import Mathlib.Algebra.Order.BigOperators.Group.List
import SwapRouting.Proofs.Route.Monotone
import SwapRouting.Proofs.Split.Improvement
import SwapRouting.Proofs.Split.Optimize

/-! What the splits of a fixed input pay.

Every split takes something, for shares of zero are left out. That it pays something is asked of all of them
together only: they have to pay more than the best route alone, which pays no less than any of them. So two
of several splits always pay, and a third one may take its share for nothing. -/
namespace SwapRouting
set_option autoImplicit false

/-- How many of the quotes pay something. -/
def payingCount (qs : List QuotedRoute) : Nat := qs.countP fun q => 0 < q.amountOut

theorem payingCount_cons (q : QuotedRoute) (qs : List QuotedRoute) :
    payingCount (q :: qs) = payingCount qs + if 0 < q.amountOut then 1 else 0 := by
  simp [payingCount, List.countP_cons]

theorem payingCount_eq_length_iff {qs : List QuotedRoute} :
    payingCount qs = qs.length ↔ ∀ q ∈ qs, 0 < q.amountOut := by
  simp [payingCount, List.countP_eq_length]

/-- Quotes of which none pays more than `n` pay it once for each that pays, at most. -/
theorem sumOut_le_payingCount_mul {qs : List QuotedRoute} {n : Nat} (h : ∀ q ∈ qs, q.amountOut ≤ n) :
    sumOut qs ≤ payingCount qs * n := by
  induction qs with
  | nil => exact Nat.zero_le _
  | cons q rest ih =>
    have hq := h q (List.mem_cons_self ..)
    have hrest := ih fun x hx => h x (List.mem_cons_of_mem q hx)
    rw [sumOut_cons, payingCount_cons, Nat.add_mul]
    split
    · omega
    · omega

/-! ## What shares take -/

theorem requote_cons_eq_ok {order : SwapOrder} {l : Leg} {legs : List Leg} {qs : List QuotedRoute}
    (h : requote order (l :: legs) = .ok qs) :
    (l.share = 0 ∧ requote order legs = .ok qs) ∨
    ∃ q rest, 0 < l.share ∧ l.route.quoteFor order.method order.denomIn l.share = .ok q ∧
      requote order legs = .ok rest ∧ qs = q :: rest := by
  rw [requote] at h
  split at h
  · next hzero => exact Or.inl ⟨hzero, h⟩
  · next hpos =>
    split at h
    · cases h
    · cases h
    · next q hq =>
      cases hrest : requote order legs with
      | error e =>
        rw [hrest] at h
        cases h
      | ok rest =>
        rw [hrest] at h
        cases h
        exact Or.inr ⟨q, rest, by omega, hq, rfl, rfl⟩

/-- Shares of zero are not quoted again. -/
theorem amountIn_pos_of_requote {order : SwapOrder} (hexact : order.method = .exactIn)
    {legs : List Leg} {qs : List QuotedRoute} (h : requote order legs = .ok qs) :
    ∀ q ∈ qs, 0 < q.amountIn := by
  induction legs generalizing qs with
  | nil =>
    cases h
    simp
  | cons l legs ih =>
    rcases requote_cons_eq_ok h with ⟨-, hrest⟩ | ⟨q, rest, hpos, hq, hrest, rfl⟩
    · exact ih hrest
    · intro x hx
      rcases List.mem_cons.1 hx with rfl | hx
      · rw [(Route.quoteFor_answers hq).takes hexact]
        exact hpos
      · exact ih hrest x hx

/-! ## What the best route pays -/

section
variable {preferred : List Nat} {order : SwapOrder} {routes : List Route} {best : QuotedRoute}
variable {rest : List QuotedRoute}

/-- With a fixed input no route pays more than the first of a ranking. -/
theorem RankingOf.amountOut_le_best (h : RankingOf preferred order routes (best :: rest))
    (hexact : order.method = .exactIn) {q : QuotedRoute} (hq : q ∈ best :: rest) :
    q.amountOut ≤ best.amountOut := by
  rcases List.mem_cons.1 hq with rfl | hq
  · exact Nat.le_refl _
  · have hbefore := List.rel_of_pairwise_cons h.sorted hq
    simp only [hexact, ranksBefore, compareRank, comparePrice, Ordering.isLE_then_iff_or,
      Nat.compare_eq_lt, Nat.compare_eq_eq] at hbefore
    omega

/-- Nor does a part of the input pay more on any of them. -/
theorem RankingOf.share_le_best (h : RankingOf preferred order routes (best :: rest))
    (hexact : order.method = .exactIn) {r : Route} (hr : r ∈ (best :: rest).map (·.route))
    {share out : Nat} (hle : share ≤ order.amount) (hout : r.amountOut order.denomIn share = .ok out) :
    out ≤ best.amountOut := by
  obtain ⟨q, hq, rfl⟩ := List.mem_map.1 hr
  have hanswers := Route.quoteFor_answers (h.pays q hq).quoted
  have hwhole := hanswers.buys
  rw [hanswers.takes hexact] at hwhole
  exact (q.route.grows_amountOut order.denomIn hle hout hwhole).trans (h.amountOut_le_best hexact hq)

end

/-! ## What splits pay -/

/-- Splits that all take something, of which one pays or, of several, two. -/
structure PayingSplits (splits : List QuotedRoute) : Prop where
  ne_nil : splits ≠ []
  takes : ∀ q ∈ splits, 0 < q.amountIn
  pays : min splits.length 2 ≤ payingCount splits

/-- Two splits both pay. -/
theorem PayingSplits.all_pay {splits : List QuotedRoute} (h : PayingSplits splits)
    (hlength : splits.length ≤ 2) : ∀ q ∈ splits, 0 < q.amountOut := by
  have hcount : payingCount splits ≤ splits.length := List.countP_le_length
  have hpays := h.pays
  exact payingCount_eq_length_iff.1 (by omega)

section
variable {ctx : Context} {limits : SplitLimits} {preferred : List Nat} {order : SwapOrder}
variable {routes : List Route} {best : QuotedRoute} {rest splits : List QuotedRoute}

theorem payingSplits_single (h : RankingOf preferred order routes (best :: rest)) :
    PayingSplits [best] := by
  have hpays := h.pays best (List.mem_cons_self ..)
  have hout : 0 < best.amountOut := Nat.pos_of_ne_zero hpays.positive
  refine ⟨List.cons_ne_nil _ _, fun q hq => ?_, ?_⟩
  · rw [List.mem_singleton.1 hq]
    by_contra hzero
    have hbuys := (Route.quoteFor_answers hpays.quoted).buys
    rw [Nat.eq_zero_of_not_pos hzero] at hbuys
    exact hpays.positive (best.route.keepsZero_amountOut order.denomIn hbuys)
  · rw [payingCount_cons, if_pos hout]
    show 1 ≤ payingCount [] + 1
    omega

/-- Several splits beat the best route, so one of them alone does not pay all of it. -/
theorem Winning.payingSplits (h : Winning ctx limits order (best :: rest) best splits)
    (hsplit : SplitOf ctx limits order (best :: rest) best splits)
    (hof : RankingOf preferred order routes (best :: rest)) (hexact : order.method = .exactIn) :
    PayingSplits splits := by
  have hlength := h.several
  obtain ⟨b, -, hrequote⟩ := h.balanced
  refine ⟨List.ne_nil_of_length_pos (by omega), amountIn_pos_of_requote hexact hrequote, ?_⟩
  have hle : ∀ q ∈ splits, q.amountOut ≤ best.amountOut := by
    intro q hq
    have hshare : q.amountIn ≤ sumIn splits := List.le_sum_of_mem (List.mem_map_of_mem hq)
    rw [hsplit.meets.takes hexact] at hshare
    exact hof.share_le_best hexact (hsplit.routes.subset (List.mem_map_of_mem hq)) hshare
      (hsplit.buys q hq)
  have hbeats : best.amountOut < sumOut splits := by
    have hbeats := h.beats
    simp only [SwapRouting.beats, hexact, decide_eq_true_eq] at hbeats
    exact hbeats.trans_le (Nat.mod_le ..)
  have hmul := sumOut_le_payingCount_mul hle
  by_contra hfew
  have hone : payingCount splits * best.amountOut ≤ 1 * best.amountOut :=
    Nat.mul_le_mul_right _ (by omega)
  omega

/-- The split of a fixed input over any ranking succeeds, all its routes take something, and two of several
pay; so all of them pay where a split has two routes at most. -/
theorem optimize_payingSplits {ctx' : Context} {qs ranked : List QuotedRoute}
    (hexact : order.method = .exactIn) (hamount : order.amount < Amount.bound)
    (hrank : (rankRoutes ctx' preferred order routes).1 = .ok qs)
    (hranked : ranked = qs ∨ ranked = dropSharedPools qs) :
    ∃ splits, (optimize ctx limits order ranked).1 = .ok splits ∧ PayingSplits splits ∧
      (limits.maxRoutes ≤ 2 → ∀ q ∈ splits, 0 < q.amountOut) := by
  have hof : RankingOf preferred order routes ranked := by
    rcases hranked with rfl | rfl
    · exact rankRoutes_spec hrank
    · exact (rankRoutes_spec hrank).dropSharedPools
  cases ranked with
  | nil => exact absurd rfl hof.ne_nil
  | cons best rest =>
    have hconserves : ∀ qs, BalancedQuotes ctx limits order (best :: rest) qs → Meets order qs →
        conserves order qs = true :=
      fun _ _ hmeets => conserves_of_exactIn hmeets hexact hamount
    obtain ⟨splits, hsplits⟩ := optimize_isOk hof hconserves
    have hsplit := splitOf_of_optimize_eq_ok hof hsplits
    rcases hsplit.origin with rfl | hwinning
    · have hpaying := payingSplits_single hof
      exact ⟨_, hsplits, hpaying, fun _ => hpaying.all_pay (Nat.le_succ 1)⟩
    · have hpaying := hwinning.payingSplits hsplit hof hexact
      refine ⟨splits, hsplits, hpaying, fun htwo => hpaying.all_pay ?_⟩
      have hlength := hwinning.routes.length_le
      rw [List.length_map] at hlength
      exact (hlength.trans (length_splittable_le limits _)).trans htwo

end

/-- Three routes that pay 18, 7 and 1 for all of 54. -/
def unevenRanking : List QuotedRoute :=
  [⟨oneProductRoute 1 4 20, 54, 18⟩, ⟨oneProductRoute 2 4 8, 54, 7⟩, ⟨oneProductRoute 3 100 4, 54, 1⟩]

theorem rankRoutes_uneven :
    (rankRoutes .background [] ⟨.exactIn, "in", 54⟩
      [oneProductRoute 1 4 20, oneProductRoute 2 4 8, oneProductRoute 3 100 4]).1 = .ok unevenRanking := by
  decide +kernel

theorem optimize_uneven :
    (optimize .background ⟨3, 64, 0, 4⟩ ⟨.exactIn, "in", 54⟩ unevenRanking).1
      = .ok [⟨oneProductRoute 1 4 20, 18, 16⟩, ⟨oneProductRoute 2 4 8, 18, 6⟩,
        ⟨oneProductRoute 3 100 4, 18, 0⟩] := by
  decide +kernel

theorem uneven_payingSplits :
    ∃ splits, (optimize .background ⟨3, 64, 0, 4⟩ ⟨.exactIn, "in", 54⟩ unevenRanking).1 = .ok splits ∧
      payingCount splits = 2 ∧ PayingSplits splits := by
  have hpays : ∃ splits, (optimize .background ⟨3, 64, 0, 4⟩ ⟨.exactIn, "in", 54⟩ unevenRanking).1
      = .ok splits ∧ PayingSplits splits ∧ (3 ≤ 2 → ∀ q ∈ splits, 0 < q.amountOut) :=
    optimize_payingSplits rfl (by decide) rankRoutes_uneven (Or.inl rfl)
  obtain ⟨splits, hsplits, hpaying, -⟩ := hpays
  have hcount : payingCount splits = 2 := by
    have heq := hsplits.symm.trans optimize_uneven
    rw [Except.ok.injEq] at heq
    rw [heq]
    decide
  exact ⟨splits, hsplits, hcount, hpaying⟩

/-- The third route takes a third of the input and pays nothing for it. -/
theorem uneven_paysNothing :
    (rankRoutes .background [] ⟨.exactIn, "in", 54⟩
        [oneProductRoute 1 4 20, oneProductRoute 2 4 8, oneProductRoute 3 100 4]).1
        = .ok unevenRanking ∧
      ∃ splits, (optimize .background ⟨3, 64, 0, 4⟩ ⟨.exactIn, "in", 54⟩ unevenRanking).1 = .ok splits ∧
        ∃ q ∈ splits, q.amountIn = 18 ∧ q.amountOut = 0 :=
  ⟨rankRoutes_uneven, _, optimize_uneven, ⟨oneProductRoute 3 100 4, 18, 0⟩, by simp, rfl, rfl⟩

end SwapRouting
