import Mathlib.Algebra.Order.BigOperators.Group.List
import SwapRouting.Proofs.Quote
import SwapRouting.Proofs.Router.Quotes
import SwapRouting.Proofs.Router.Repeat

/-! The best single route against the best split.

A request for an input is asked twice in a row, once with and once without leave to split. The answer
that comes second ranks what the first one left in the caches, so both start from the same ranking. Where
fees lie between zero and one both are quoted, or neither is, and the split pays at least as much. -/
namespace SwapRouting
set_option autoImplicit false

/-- The request with leave to split, or without. -/
def QuoteRequest.splitting (q : QuoteRequest) (allow : Bool) : QuoteRequest :=
  { q with allowSplit := allow }

namespace Router

/-- Whether all spreads and taker fees lie between zero and one. -/
structure UnitFees (r : Router) : Prop where
  spreads : ∀ id p, r.generation.snapshot.get? id = some p → p.spread.InUnit
  takerFees : ∀ a b, (r.market.takerFee a b).InUnit

/-- Whether an amount stands for a split of a ranking with the first route `best`: it is what `best`
pays, or more where the order may be split. -/
structure PaysBest (allowSplit : Bool) (best : QuotedRoute) (paid : Nat) : Prop where
  alone : allowSplit = false → paid = totalOut [best]
  noLess : paid = totalOut [best] ∨ best.amountOut < paid

/-- The answers of a request without leave to split and with it: the same error, or two quotes of which
the second pays no less. -/
def NoLoss : Except RouterError Quote → Except RouterError Quote → Prop
  | .error e, .error e' => e = e'
  | .ok single, .ok split => single.amountOut.amount ≤ split.amountOut.amount
  | _, _ => False

/-- The answer to a request with leave to split, or without, when the request is asked twice: at time
`now` as `first` says, and at time `later` the other way round. -/
def answerOf (r : Router) (now later : Nat) (ctx : Context) (q : QuoteRequest) (first allow : Bool) :
    Except RouterError Quote :=
  if allow = first then (r.ask now ctx (.best (q.splitting first))).1
  else
    let after := r.perform (.ask now ctx (.best (q.splitting first)))
    (after.ask later ctx (.best (q.splitting allow))).1

variable {r : Router} {now later : Nat} {ctx : Context} {q : QuoteRequest} {m m' : Memory}
variable {best : QuotedRoute} {rest splits : List QuotedRoute}

/-! ## Fees -/

theorem Leads.unitFees (hkeyed : r.generation.snapshot.Keyed) (hfees : r.UnitFees)
    {denomIn denomOut : Denom} {route : Route} (h : r.Leads denomIn denomOut route) :
    route.UnitFees := by
  intro hop hmem
  obtain ⟨hpool, a, b, hfee⟩ :=
    Market.mem_of_attachHops_eq_ok hkeyed (Market.attach_eq_ok h.attached) hmem
  refine ⟨hfees.spreads _ _ hpool, ?_⟩
  rw [hfee]
  exact hfees.takerFees a b

theorem unitFees_of_entries
    (hspreads : ∀ e ∈ r.generation.snapshot.pools.entries, e.2.spread.InUnit)
    (hfees : r.generation.fees = FeeTable.empty) (hdefault : r.config.defaultTakerFee.InUnit) :
    r.UnitFees := by
  refine ⟨fun id p hp => hspreads _ (Dict.mem_entries_of_get?_eq_some hp), ?_⟩
  intro a b
  rw [Market.takerFee, market, hfees]
  exact hdefault

/-! ## Quotes of a ranking -/

/-- Splits that lead along the current pools can be put into a quote. -/
theorem prepareQuote_isOk (hkeyed : r.generation.snapshot.Keyed) (hfees : r.UnitFees)
    {order : SwapOrder} {denomOut : Denom} (hfit : sumIn splits < Amount.bound)
    (hleads : ∀ s ∈ splits, r.Leads order.denomIn denomOut s.route)
    (hbuys : ∀ s ∈ splits, s.route.amountOut order.denomIn s.amountIn = .ok s.amountOut)
    (hlength : splits.length < 2 ^ 64) (m : Memory) :
    ∃ quote, (r.prepareQuote order.method order.denomIn denomOut order.amount splits m).1
      = .ok quote := by
  have hprepare : ∃ prepared, (Quote.prepare order.method order.denomIn denomOut
      (r.tokens.scaling order.denomIn denomOut) splits).1 = .ok prepared :=
    Quote.prepare_isOk_of_sumIn_lt (fun s hs => (hleads s hs).unitFees hkeyed hfees) hbuys hfit hlength
  obtain ⟨prepared, hprepared⟩ := hprepare
  refine ⟨Quote.fixed order.amount prepared, ?_⟩
  rw [prepareQuote]
  simp only [hprepared]
  rfl

theorem length_of_splitOf {limits : SplitLimits} {order : SwapOrder}
    (h : SplitOf ctx limits order (best :: rest) best splits) :
    splits = [best] ∨ 1 < splits.length ∧ splits.length ≤ limits.maxRoutes := by
  rcases h.origin with hsingle | hwinning
  · exact Or.inl hsingle
  · have hle := hwinning.routes.length_le
    rw [List.length_map] at hle
    exact Or.inr ⟨hwinning.several, hle.trans (length_splittable_le limits _)⟩

theorem paysBest_of_splitOf (hexact : q.method = .exactIn)
    (h : SplitOf ctx (r.splitLimits q) q.order (best :: rest) best splits) :
    PaysBest q.allowSplit best (totalOut splits) := by
  refine ⟨fun halone => ?_, ?_⟩
  · have hone : (r.splitLimits q).maxRoutes = 1 := by
      rw [splitLimits]
      simp only [halone, Bool.false_eq_true, if_false]
    rcases length_of_splitOf h with hsingle | ⟨hseveral, hfew⟩
    · rw [hsingle]
    · omega
  · rcases h.origin with hsingle | hwinning
    · exact Or.inl (by rw [hsingle])
    · have hbeats := hwinning.beats
      rw [beats] at hbeats
      have horder : q.order.method = .exactIn := hexact
      simp only [horder, decide_eq_true_eq] at hbeats
      exact Or.inr hbeats

theorem quoteRanked_isOk (h : r.Sound) (hfees : r.UnitFees) (hexact : q.method = .exactIn)
    (hamount : q.amount < Amount.bound) (hlimit : (r.splitLimits q).maxRoutes < 2 ^ 64)
    (hranks : r.Ranks q (best :: rest))
    (hranked : (r.rankRequest now ctx q m).1 = .ok (best :: rest)) :
    ∃ quote, (r.quoteRanked now ctx q m).1 = .ok quote ∧
      PaysBest q.allowSplit best quote.amountOut.amount := by
  obtain ⟨routes, hranking⟩ := hranks.ranking
  have hconserves : ∀ qs, BalancedQuotes ctx (r.splitLimits q) q.order (best :: rest) qs →
      Meets q.order qs → conserves q.order qs = true :=
    fun qs _ hmeets => conserves_of_exactIn hmeets hexact hamount
  obtain ⟨splits, hsplits⟩ := optimize_isOk hranking hconserves
  have hsplit := splitOf_of_optimize_eq_ok hranking hsplits
  have hlength : splits.length < 2 ^ 64 := by
    rcases length_of_splitOf hsplit with hsingle | ⟨-, hfew⟩
    · rw [hsingle, List.length_singleton]
      decide
    · omega
  have hfit : sumIn splits < Amount.bound := (hsplit.meets.takes hexact).trans_lt hamount
  obtain ⟨quote, hquote⟩ := prepareQuote_isOk h.keyed hfees hfit (leads_of_splitOf hranks hsplit)
    hsplit.buys hlength ((r.rankRequest now ctx q m).2.record
      (optimize ctx (r.splitLimits q) q.order (best :: rest)).2)
  refine ⟨quote, ?_, ?_⟩
  · rw [quoteRanked]
    simp only [hranked, hsplits]
    exact hquote
  · have horder : q.order.method = .exactIn := hexact
    rw [(prepareQuote_eq_ok hquote).2.2, horder]
    exact paysBest_of_splitOf hexact hsplit

theorem ranks_splitting {ranked : List QuotedRoute} (h : r.Ranks q ranked) (allow : Bool) :
    r.Ranks (q.splitting allow) ranked := ⟨h.ranking, h.leads, h.apart⟩

theorem quoteRanked_of_error {e : RouterError} (h : (r.rankRequest now ctx q m).1 = .error e) :
    (r.quoteRanked now ctx q m).1 = .error e := by
  rw [quoteRanked]
  simp only [h]

theorem caches_quoteRanked (r : Router) (now : Nat) (ctx : Context) (q : QuoteRequest)
    (m : Memory) :
    (r.quoteRanked now ctx q m).2.caches = (r.rankRequest now ctx q m).2.caches := by
  rw [quoteRanked]
  simp only
  split
  · rfl
  · split
    · rfl
    · rfl

/-! ## No loss -/

theorem NoLoss.refl (x : Except RouterError Quote) : NoLoss x x := by
  cases x with
  | error e => exact Eq.refl e
  | ok quote => exact Nat.le_refl _

theorem noLoss_of_paysBest {single split : Quote} (h : PaysBest false best single.amountOut.amount)
    (h' : PaysBest true best split.amountOut.amount) : NoLoss (.ok single) (.ok split) := by
  show single.amountOut.amount ≤ split.amountOut.amount
  have hsingle := h.alone rfl
  -- a total may wrap around, but only to something less
  have hle : totalOut [best] ≤ best.amountOut := by
    have hmod : totalOut [best] ≤ sumOut [best] := Nat.mod_le _ _
    rw [sumOut_single] at hmod
    exact hmod
  rcases h'.noLess with hsame | hmore
  · omega
  · omega

theorem noLoss_quoteRanked (h : r.Sound) (hm : m.caches.Sound) (hfees : r.UnitFees)
    (hexact : q.method = .exactIn) (hamount : q.amount < Amount.bound)
    (hlimit : (r.splitLimits (q.splitting true)).maxRoutes < 2 ^ 64)
    (hsame : (r.rankRequest now ctx q m).1 = (r.rankRequest later ctx q m').1) :
    NoLoss (r.quoteRanked now ctx (q.splitting false) m).1
      (r.quoteRanked later ctx (q.splitting true) m').1 := by
  cases hranking : (r.rankRequest now ctx q m).1 with
  | error e =>
    have h1 : (r.quoteRanked now ctx (q.splitting false) m).1 = .error e :=
      quoteRanked_of_error hranking
    have h2 : (r.quoteRanked later ctx (q.splitting true) m').1 = .error e :=
      quoteRanked_of_error (hsame.symm.trans hranking)
    rw [h1, h2]
    exact NoLoss.refl _
  | ok qs =>
    have hqs := (rankRequest_spec h.keyed hm now ctx q).2 qs hranking
    cases qs with
    | nil =>
      obtain ⟨routes, hof⟩ := hqs.ranking
      exact absurd rfl hof.ne_nil
    | cons best rest =>
      have hone : (r.splitLimits (q.splitting false)).maxRoutes < 2 ^ 64 := by
        show 1 < 2 ^ 64
        decide
      obtain ⟨single, h1, hsingle⟩ := quoteRanked_isOk (q := q.splitting false) h hfees hexact
        hamount hone (ranks_splitting hqs false) hranking
      obtain ⟨split, h2, hsplit⟩ := quoteRanked_isOk (q := q.splitting true) h hfees hexact
        hamount hlimit (ranks_splitting hqs true) (hsame.symm.trans hranking)
      rw [h1, h2]
      exact noLoss_of_paysBest hsingle hsplit

theorem quotePinned_fst (r : Router) (ctx : Context) (q : QuoteRequest)
    (pinned : List CandidateRoute) (m : Memory) :
    (r.quotePinned ctx q pinned m).1 =
      match r.rankAttached ctx q pinned with
      | .error e => .error e
      | .ok [] => .error .emptyRanking
      | .ok (best :: _) =>
        (r.prepareQuote q.method q.denomIn q.denomOut q.amount [best] m).1 := by
  have hranked : (r.rankCandidates ctx q (attachAll r.market q.denomIn pinned).1
      (m.record (attachAll r.market q.denomIn pinned).2)).1 = r.rankAttached ctx q pinned := rfl
  rw [quotePinned, hranked]
  cases r.rankAttached ctx q pinned with
  | error e => rfl
  | ok qs =>
    cases qs with
    | nil => rfl
    | cons best rest => rfl

/-- Pinned routes are never split, so leave to split makes no difference to them. -/
theorem quotePinned_splitting (r : Router) (ctx : Context) (q : QuoteRequest)
    (pinned : List CandidateRoute) (allow allow' : Bool) (m m' : Memory) :
    (r.quotePinned ctx (q.splitting allow) pinned m).1
      = (r.quotePinned ctx (q.splitting allow') pinned m').1 := by
  rw [quotePinned_fst, quotePinned_fst]
  rfl

theorem answer_of_invalid {e : RouterError}
    (hvalid : r.validateRequest q.denomIn q.denomOut q.amount = .error e) :
    r.answer now ctx q m = (.error e, m) := by
  rw [answer, hvalid]

theorem answer_of_pinned {pinned : List CandidateRoute}
    (hvalid : r.validateRequest q.denomIn q.denomOut q.amount = .ok ())
    (hpinned : r.pinnedRoutes? q = some pinned) :
    r.answer now ctx q m = r.quotePinned ctx q pinned m := by
  rw [answer, hvalid]
  simp only [hpinned]

theorem answer_of_ranked (hvalid : r.validateRequest q.denomIn q.denomOut q.amount = .ok ())
    (hpinned : r.pinnedRoutes? q = none) :
    r.answer now ctx q m = r.quoteRanked now ctx q m := by
  rw [answer, hvalid]
  simp only [hpinned]

/-- Two answers, one without leave to split and one with it, whose routes are ranked the same where
none are pinned. -/
theorem noLoss_answer (h : r.Sound) (hm : m.caches.Sound) (hfees : r.UnitFees)
    (hexact : q.method = .exactIn) (hamount : q.amount < Amount.bound)
    (hlimit : (r.splitLimits (q.splitting true)).maxRoutes < 2 ^ 64)
    (hsame : r.validateRequest q.denomIn q.denomOut q.amount = .ok () → r.pinnedRoutes? q = none →
      (r.rankRequest now ctx q m).1 = (r.rankRequest later ctx q m').1) :
    NoLoss (r.answer now ctx (q.splitting false) m).1
      (r.answer later ctx (q.splitting true) m').1 := by
  cases hvalid : r.validateRequest q.denomIn q.denomOut q.amount with
  | error e =>
    rw [answer_of_invalid (q := q.splitting false) hvalid,
      answer_of_invalid (q := q.splitting true) hvalid]
    exact NoLoss.refl _
  | ok _ =>
    cases hpinned : r.pinnedRoutes? q with
    | some pinned =>
      rw [answer_of_pinned (q := q.splitting false) hvalid hpinned,
        answer_of_pinned (q := q.splitting true) hvalid hpinned,
        quotePinned_splitting r ctx q pinned false true m m']
      exact NoLoss.refl _
    | none =>
      rw [answer_of_ranked (q := q.splitting false) hvalid hpinned,
        answer_of_ranked (q := q.splitting true) hvalid hpinned]
      exact noLoss_quoteRanked h hm hfees hexact hamount hlimit (hsame hvalid hpinned)

theorem caches_quote (r : Router) (now : Nat) (ctx : Context) (q : QuoteRequest) :
    (r.quote now ctx q).2.caches = (r.answer now ctx q r.memory).2.caches := by
  rw [Router.quote]
  simp only
  split
  · rfl
  · rfl

/-- A request that is answered leaves the caches that ranking its routes leaves. -/
theorem caches_ask (hvalid : r.validateRequest q.denomIn q.denomOut q.amount = .ok ())
    (hpinned : r.pinnedRoutes? q = none) :
    (r.ask now ctx (.best q)).2.caches = (r.rankRequest now ctx q r.memory).2.caches := by
  have hquote : (r.ask now ctx (.best q)).2.caches = (r.answer now ctx q r.memory).2.caches :=
    caches_quote r now ctx q
  rw [hquote, answer_of_ranked hvalid hpinned, caches_quoteRanked]

/-- Asked twice in a row, in either order and with nothing expiring in between, a reachable router gives
the same error without leave to split and with it, or two quotes of which the second pays no less. Amounts
have 128 bits here, and the limit of splits has 64. -/
theorem noLoss_of_reachable (h : r.Reachable) (hfees : r.UnitFees) (hexact : q.method = .exactIn)
    (hamount : q.amount < Amount.bound)
    (hlimit : (r.splitLimits (q.splitting true)).maxRoutes < 2 ^ 64)
    (hctx : ∀ stage n, ctx.isDone stage n = false) (hle : now ≤ later) (first : Bool)
    (hkeeps : (r.perform (.ask now ctx (.best (q.splitting first)))).memory.caches.Keeps now later) :
    NoLoss (r.answerOf now later ctx q first false) (r.answerOf now later ctx q first true) := by
  have hsound := h.sound
  have hafter := (ask_spec hsound now ctx (.best (q.splitting first))).1
  have hagain : r.validateRequest q.denomIn q.denomOut q.amount = .ok () →
      r.pinnedRoutes? q = none →
      (r.rankRequest later ctx q (r.ask now ctx (.best (q.splitting first))).2).1
        = (r.rankRequest now ctx q r.memory).1 := by
    intro hvalid hpinned
    exact rankRequest_again hsound.keyed hsound.caches (hctx .ranking)
      (caches_ask (q := q.splitting first) hvalid hpinned) hkeeps hle
  cases first with
  | false =>
    have hloss : NoLoss (r.answer now ctx (q.splitting false) r.memory).1
        (r.answer later ctx (q.splitting true) (r.ask now ctx (.best (q.splitting false))).2).1 :=
      noLoss_answer hsound hsound.caches hfees hexact hamount hlimit
        fun hvalid hpinned => (hagain hvalid hpinned).symm
    exact hloss
  | true =>
    have hloss : NoLoss
        (r.answer later ctx (q.splitting false) (r.ask now ctx (.best (q.splitting true))).2).1
        (r.answer now ctx (q.splitting true) r.memory).1 :=
      noLoss_answer hsound hafter hfees hexact hamount hlimit hagain
    exact hloss

/-! ## A router with two equal pools -/

/-- A pool without a spread, like any other with the same denoms. -/
def twinPool (id : Nat) : Pool :=
  PoolRecord.constantProduct ⟨id, .constantProduct, ["a", "b"], [⟨"a", 1000⟩, ⟨"b", 1000⟩],
    Decimal.zero, 0⟩

/-- The router after a block with two equal pools. -/
def twins : Router := bridgeStart.run [.block ⟨1, [twinPool 1, twinPool 2], []⟩ {}]

def twinRequest : QuoteRequest := ⟨.exactIn, "a", "b", 100, {}, true⟩

theorem reachable_twins : twins.Reachable :=
  ⟨bridgeStart, _, ⟨bridgeStart.config, bridgeStart.tokens, true, false, none, by decide +kernel⟩, rfl⟩

theorem unitFees_twins : twins.UnitFees := by
  have hzero : Decimal.zero.InUnit := ⟨rfl, by decide⟩
  have hentries : twins.generation.snapshot.pools.entries = [(1, twinPool 1), (2, twinPool 2)] := by
    decide +kernel
  refine unitFees_of_entries ?_ (by decide +kernel) hzero
  rw [hentries]
  intro e he
  simp only [List.mem_cons, List.not_mem_nil, or_false] at he
  rcases he with rfl | rfl
  · exact hzero
  · exact hzero

theorem caches_twins (allow : Bool) :
    (twins.perform (.ask 0 .background (.best (twinRequest.splitting allow)))).memory.caches
      = (twins.rankRequest 0 .background twinRequest twins.memory).2.caches := by
  have hvalid : twins.validateRequest "a" "b" 100 = .ok () := by decide +kernel
  have hpinned : twins.pinnedRoutes? (twinRequest.splitting allow) = none := rfl
  exact caches_ask (q := twinRequest.splitting allow) hvalid hpinned

theorem keeps_twins (allow : Bool) :
    (twins.perform (.ask 0 .background (.best (twinRequest.splitting allow)))).memory.caches.Keeps
      0 1 := by
  have hcandidates : ((twins.rankRequest 0 .background twinRequest
      twins.memory).2.caches.candidates.entries.all fun e => decide (1 < e.2.expiresAt)) = true := by
    decide +kernel
  have hranked : ((twins.rankRequest 0 .background twinRequest
      twins.memory).2.caches.ranked.entries.all fun e => decide (1 < e.2.expiresAt)) = true := by
    decide +kernel
  rw [caches_twins]
  refine ⟨ExpiringCache.keeps_of_entries ?_ 0, ExpiringCache.keeps_of_entries ?_ 0⟩
  · intro e he
    exact of_decide_eq_true (List.all_eq_true.1 hcandidates e he)
  · intro e he
    exact of_decide_eq_true (List.all_eq_true.1 hranked e he)

theorem twins_noLoss :
    NoLoss (twins.answerOf 0 1 .background twinRequest false false)
        (twins.answerOf 0 1 .background twinRequest false true) ∧
      NoLoss (twins.answerOf 0 1 .background twinRequest true false)
        (twins.answerOf 0 1 .background twinRequest true true) := by
  refine ⟨?_, ?_⟩
  · exact noLoss_of_reachable reachable_twins unitFees_twins rfl (by decide) (by decide)
      (fun _ _ => rfl) (by decide) false (keeps_twins false)
  · exact noLoss_of_reachable reachable_twins unitFees_twins rfl (by decide) (by decide)
      (fun _ _ => rfl) (by decide) true (keeps_twins true)

end Router

end SwapRouting
