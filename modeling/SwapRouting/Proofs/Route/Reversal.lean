import SwapRouting.Proofs.Candidate
import SwapRouting.Proofs.Route.Attach

/-! Candidate routes attached from the other end.

A candidate attaches exactly if each of its hops goes through a pool of the snapshot between two
different denoms that the pool holds. None of this has a direction, so a candidate that attaches from one
end attaches from the other end when it is turned around, and turned around twice it is the same again. -/
namespace SwapRouting
set_option autoImplicit false

/-- Whether the snapshot has a pool with this identifier for trades between two denoms. -/
def PoolSnapshot.Trades (s : PoolSnapshot) (id : Nat) (a b : Denom) : Prop :=
  ∃ p, s.get? id = some p ∧ p.holds a ∧ p.holds b ∧ a ≠ b

theorem PoolSnapshot.Trades.symm {s : PoolSnapshot} {id : Nat} {a b : Denom} (h : s.Trades id a b) :
    s.Trades id b a := by
  obtain ⟨p, hget, ha, hb, hne⟩ := h
  exact ⟨p, hget, hb, ha, hne.symm⟩

/-- Whether the pools of all hops trade, each for what the hop before it paid. -/
def Tradable (s : PoolSnapshot) (denomIn : Denom) : List Hop → Prop
  | [] => True
  | h :: r => s.Trades h.pool denomIn h.denomOut ∧ Tradable s h.denomOut r

/-- The denom that hops lead to. -/
def arrivesAt (denomIn : Denom) : List Hop → Denom
  | [] => denomIn
  | h :: r => arrivesAt h.denomOut r

/-! ## What attaches -/

namespace Market

variable {m : Market} {denomIn : Denom}

theorem attachHop_isOk_iff {h : Hop} :
    (∃ rh, m.attachHop denomIn h = .ok rh) ↔ m.snapshot.Trades h.pool denomIn h.denomOut := by
  unfold attachHop PoolSnapshot.Trades
  cases hget : m.snapshot.get? h.pool with
  | none => simp
  | some p =>
    by_cases hin : p.holds denomIn
    · by_cases hout : p.holds h.denomOut
      · by_cases hne : denomIn = h.denomOut
        · simp [hout, hne]
        · simp [hin, hout, hne]
      · simp [hin, hout]
    · simp [hin]

theorem attachHops_isOk_iff {hops : List Hop} :
    (∃ rhs, m.attachHops denomIn hops = .ok rhs) ↔ Tradable m.snapshot denomIn hops := by
  induction hops generalizing denomIn with
  | nil => exact ⟨fun _ => trivial, fun _ => ⟨[], rfl⟩⟩
  | cons h r ih =>
    unfold Tradable
    rw [← attachHop_isOk_iff, ← ih]
    constructor
    · rintro ⟨rhs, hrhs⟩
      obtain ⟨rh, hrh, hrest⟩ := bind_eq_ok_iff.1 hrhs
      obtain ⟨others, hothers, -⟩ := bind_eq_ok_iff.1 hrest
      exact ⟨⟨rh, hrh⟩, others, hothers⟩
    · rintro ⟨⟨rh, hrh⟩, others, hothers⟩
      refine ⟨rh :: others, bind_eq_ok_iff.2 ⟨rh, hrh, ?_⟩⟩
      exact bind_eq_ok_iff.2 ⟨others, hothers, rfl⟩

theorem attach_isOk_iff {c : CandidateRoute} :
    (∃ r, m.attach denomIn c = .ok r) ↔ c.hops ≠ [] ∧ Tradable m.snapshot denomIn c.hops := by
  unfold attach
  by_cases hempty : c.hops = []
  · simp [CandidateRoute.isEmpty, hempty]
  · rw [← attachHops_isOk_iff, if_neg (by simp [CandidateRoute.isEmpty, hempty])]
    constructor
    · rintro ⟨r, hr⟩
      obtain ⟨rhs, hrhs, -⟩ := bind_eq_ok_iff.1 hr
      exact ⟨hempty, rhs, hrhs⟩
    · rintro ⟨-, rhs, hrhs⟩
      exact ⟨_, bind_eq_ok_iff.2 ⟨rhs, hrhs, rfl⟩⟩

end Market

/-! ## Hops back to front -/

theorem arrivesAt_concat (denomIn : Denom) (hops : List Hop) (h : Hop) :
    arrivesAt denomIn (hops ++ [h]) = h.denomOut := by
  induction hops generalizing denomIn with
  | nil => rfl
  | cons x r ih => exact ih x.denomOut

theorem tradable_concat {s : PoolSnapshot} {denomIn : Denom} {hops : List Hop} {h : Hop} :
    Tradable s denomIn (hops ++ [h])
      ↔ Tradable s denomIn hops ∧ s.Trades h.pool (arrivesAt denomIn hops) h.denomOut := by
  induction hops generalizing denomIn with
  | nil => simp [Tradable, arrivesAt]
  | cons x r ih => rw [List.cons_append, Tradable, Tradable, ih, arrivesAt, and_assoc]

namespace CandidateRoute

theorem backwards_concat (denomIn : Denom) (hops : List Hop) (h : Hop) :
    backwards denomIn (hops ++ [h]) = ⟨h.pool, arrivesAt denomIn hops⟩ :: backwards denomIn hops := by
  induction hops generalizing denomIn with
  | nil => rfl
  | cons x r ih => rw [List.cons_append, backwards, ih, arrivesAt, backwards, List.cons_append]

theorem arrivesAt_backwards (denomIn : Denom) (hops : List Hop) :
    arrivesAt (arrivesAt denomIn hops) (backwards denomIn hops) = denomIn := by
  cases hops with
  | nil => rfl
  | cons h r => rw [backwards, arrivesAt_concat]

theorem backwards_backwards (denomIn : Denom) (hops : List Hop) :
    backwards (arrivesAt denomIn hops) (backwards denomIn hops) = hops := by
  induction hops generalizing denomIn with
  | nil => rfl
  | cons h r ih =>
    rw [arrivesAt, backwards, backwards_concat, ih, arrivesAt_backwards]

theorem tradable_backwards {s : PoolSnapshot} {denomIn : Denom} {hops : List Hop}
    (h : Tradable s denomIn hops) :
    Tradable s (arrivesAt denomIn hops) (backwards denomIn hops) := by
  induction hops generalizing denomIn with
  | nil => exact h
  | cons x r ih =>
    rw [arrivesAt, backwards, tradable_concat, arrivesAt_backwards]
    exact ⟨ih h.2, h.1.symm⟩

theorem arrivesAt_eq {c : CandidateRoute} {denomOut : Denom} (h : c.denomOut? = some denomOut)
    (denomIn : Denom) : arrivesAt denomIn c.hops = denomOut := by
  obtain ⟨hop, hlast, rfl⟩ := Option.map_eq_some_iff.1 h
  obtain ⟨front, hfront⟩ := List.getLast?_eq_some_iff.1 hlast
  rw [hfront, arrivesAt_concat]

end CandidateRoute

/-- A candidate that goes back over another one between two denoms. -/
structure TurnedAround (m : Market) (denomIn denomOut : Denom) (route back : CandidateRoute) : Prop where
  attaches : ∃ r, m.attach denomOut back = .ok r
  ends : back.denomOut? = some denomIn
  poolIds : back.poolIds = route.poolIds.reverse
  again : back.reversed denomOut = route

theorem turnedAround_reversed {m : Market} {denomIn denomOut : Denom} {c : CandidateRoute}
    (hend : c.denomOut? = some denomOut) (htrades : Tradable m.snapshot denomIn c.hops) :
    TurnedAround m denomIn denomOut c (c.reversed denomIn) := by
  have harrives := CandidateRoute.arrivesAt_eq hend denomIn
  have hback := CandidateRoute.denomOut?_reversed hend denomIn
  refine ⟨Market.attach_isOk_iff.2 ⟨?_, ?_⟩, hback, ?_, ?_⟩
  · intro hempty
    rw [CandidateRoute.denomOut?, hempty] at hback
    cases hback
  · rw [← harrives]
    exact CandidateRoute.tradable_backwards htrades
  · exact CandidateRoute.map_pool_backwards denomIn c.hops
  · rw [← harrives]
    exact congrArg CandidateRoute.mk (CandidateRoute.backwards_backwards denomIn c.hops)

end SwapRouting
