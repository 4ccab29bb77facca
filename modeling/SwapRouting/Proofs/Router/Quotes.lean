import SwapRouting.Proofs.Router.History

/-! Quotes of reachable routers.

However old cached and pinned routes are, a quote goes along connected routes of the current pools and
uses no pool twice, and its amounts are those of the current curves and fees. -/
namespace SwapRouting
set_option autoImplicit false

namespace Router

variable {r : Router}

/-! ## A router to ask -/

/-- A pool that pays one for one. -/
def bridgePool (id : Nat) (a b : Denom) : Pool :=
  PoolRecord.transmuter ⟨id, .contract 7 .transmuter, [a, b], [⟨a, 1000⟩, ⟨b, 1000⟩],
    Decimal.zero, 1000⟩

/-- A new router without a default fee. -/
def bridgeStart : Router where
  config := { defaultTakerFee := Decimal.zero }
  tokens := ⟨Dict.empty⟩
  overwritesEnabled := true
  generation := Generation.empty
  overwrites := OverwriteStore.opened false none
  memory := Memory.empty

/-- The router after a block with two pools in a row. -/
def bridge : Router := bridgeStart.run
  [.block ⟨1, [bridgePool 1 "a" "b", bridgePool 2 "b" "c"], []⟩ { transmuter := [7] }]

def bridgeInquiry : Inquiry := .best ⟨.exactIn, "a", "c", 100, {}, true⟩

theorem reachable_bridge : bridge.Reachable :=
  ⟨bridgeStart, _, ⟨bridgeStart.config, bridgeStart.tokens, true, false, none, by decide +kernel⟩, rfl⟩

theorem ask_bridge : ∃ quote, (bridge.ask 0 .background bridgeInquiry).1 = .ok quote ∧
    sumIn quote.splits = 100 ∧ sumOut quote.splits = 100 := by
  have h : (bridge.ask 0 .background bridgeInquiry).1.toOption.map
      (fun quote => (sumIn quote.splits, sumOut quote.splits)) = some (100, 100) := by
    decide +kernel
  obtain ⟨quote, hquote, hsums⟩ := Option.map_eq_some_iff.1 h
  rw [Prod.mk.injEq] at hsums
  exact ⟨quote, toOption_eq_some_iff.1 hquote, hsums⟩

/-! ## Routes -/

/-- Every quote goes along connected routes of the current pools, and no pool occurs twice in it. -/
theorem connected_of_ask_eq_ok (h : r.Reachable) {now : Nat} {ctx : Context} {i : Inquiry}
    {quote : Quote} (hquote : (r.ask now ctx i).1 = .ok quote) :
    (∀ s ∈ quote.splits,
      Connects r.generation.snapshot i.order.denomIn i.denomOut s.route.hops) ∧
    (quote.splits.flatMap fun s => s.route.poolIds).Nodup := by
  have hsound := h.sound
  have hserves := (ask_spec hsound now ctx i).2 quote hquote
  exact ⟨fun s hs => (hserves.leads s hs).connects hsound.keyed, hserves.apart⟩

theorem bridge_connected : ∃ quote, (bridge.ask 0 .background bridgeInquiry).1 = .ok quote ∧
    (∀ s ∈ quote.splits, Connects bridge.generation.snapshot "a" "c" s.route.hops) ∧
    (quote.splits.flatMap fun s => s.route.poolIds).Nodup := by
  obtain ⟨quote, hquote, -⟩ := ask_bridge
  exact ⟨quote, hquote, connected_of_ask_eq_ok reachable_bridge hquote⟩

/-! ## Amounts -/

/-- Amounts of a quote that are those of the current pools and fees. -/
structure Authoritative (r : Router) (i : Inquiry) (quote : Quote) : Prop where
  current : ∀ s ∈ quote.splits, r.market.attach i.order.denomIn s.route.candidate = .ok s.route
  outputs : ∀ s ∈ quote.splits,
    s.route.tokenOut ⟨i.order.denomIn, s.amountIn⟩ = .ok ⟨i.denomOut, s.amountOut⟩
  input : quote.amountIn = ⟨i.order.denomIn, sumIn quote.splits⟩
  fixedInput : i.order.method = .exactIn →
    quote.amountIn.amount = i.order.amount ∧ quote.amountOut = ⟨i.denomOut, sumOut quote.splits⟩
  fixedOutput : i.order.method = .exactOut →
    quote.amountOut = ⟨i.denomOut, i.order.amount⟩ ∧ i.order.amount ≤ sumOut quote.splits

theorem authoritative_of_ask_eq_ok (h : r.Reachable) {now : Nat} {ctx : Context} {i : Inquiry}
    {quote : Quote} (hquote : (r.ask now ctx i).1 = .ok quote)
    (hin : sumIn quote.splits < Amount.bound) (hout : sumOut quote.splits < Amount.bound) :
    r.Authoritative i quote := by
  have hserves := (ask_spec h.sound now ctx i).2 quote hquote
  have hinput : quote.amountIn = ⟨i.order.denomIn, sumIn quote.splits⟩ := by
    rw [hserves.amountIn, totalIn_eq_sumIn hin]
  refine ⟨fun s hs => (hserves.leads s hs).attached, ?_, hinput, ?_, ?_⟩
  · intro s hs
    rw [Route.tokenOut, (hserves.leads s hs).arrives]
    exact bind_eq_ok_iff.2 ⟨s.amountOut, hserves.buys s hs, rfl⟩
  · intro hm
    refine ⟨?_, ?_⟩
    · rw [hinput]
      exact hserves.meets.takes hm
    · rw [hserves.amountOut, hm, statedOut, totalOut_eq_sumOut hout]
  · intro hm
    refine ⟨?_, hserves.meets.pays hm⟩
    rw [hserves.amountOut, hm, statedOut]

theorem bridge_authoritative : ∃ quote, (bridge.ask 0 .background bridgeInquiry).1 = .ok quote ∧
    bridge.Authoritative bridgeInquiry quote := by
  obtain ⟨quote, hquote, hin, hout⟩ := ask_bridge
  refine ⟨quote, hquote, authoritative_of_ask_eq_ok reachable_bridge hquote ?_ ?_⟩
  · rw [hin]
    decide
  · rw [hout]
    decide

end Router

end SwapRouting
