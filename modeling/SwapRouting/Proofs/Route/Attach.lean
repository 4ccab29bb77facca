import SwapRouting.Generation
import SwapRouting.Proofs.Dict
import SwapRouting.Proofs.Outcome
import SwapRouting.Router.Candidates

/-! What attaching a candidate checks.

Every pool of a snapshot is found under its own identifier. A candidate that attaches is the candidate
of its route, and the route goes from denom to denom through pools of the snapshot. -/
namespace SwapRouting
set_option autoImplicit false

/-! ## Snapshots -/

/-- Whether every pool is found under its own identifier only. -/
def PoolSnapshot.Keyed (s : PoolSnapshot) : Prop := ∀ id p, s.get? id = some p → p.id = id

theorem PoolSnapshot.keyed_empty : PoolSnapshot.empty.Keyed := by
  intro id p h
  cases h

theorem PoolSnapshot.keyed_ofPools (height : Nat) (pools : List Pool) :
    (PoolSnapshot.ofPools height pools).Keyed := by
  intro id p h
  obtain ⟨q, -, hq⟩ := List.mem_map.1 (Dict.mem_of_get?_ofList_eq_some h)
  rw [Prod.mk.injEq] at hq
  rw [← hq.2]
  exact hq.1

/-! ## Connected hops -/

/-- Hops that lead from a denom to another one: each takes what the one before pays, through a pool of
the snapshot that holds both denoms. -/
def Connects (s : PoolSnapshot) (denomIn denomOut : Denom) : List RouteHop → Prop
  | [] => denomIn = denomOut
  | h :: r => s.get? h.pool.id = some h.pool ∧ h.pool.holds denomIn ∧ h.pool.holds h.denomOut ∧
      denomIn ≠ h.denomOut ∧ Connects s h.denomOut denomOut r

/-- The hop of a candidate that a hop of a route comes from. -/
def RouteHop.hop (h : RouteHop) : Hop := ⟨h.pool.id, h.denomOut⟩

namespace Market

variable {m : Market} {denomIn denomOut : Denom}

theorem attachHop_eq_ok {h : Hop} {rh : RouteHop} (hkeyed : m.snapshot.Keyed)
    (hrh : m.attachHop denomIn h = .ok rh) :
    rh.hop = h ∧ m.snapshot.get? rh.pool.id = some rh.pool ∧ rh.pool.holds denomIn ∧
      rh.pool.holds rh.denomOut ∧ denomIn ≠ rh.denomOut ∧
      rh.takerFee = m.takerFee denomIn rh.denomOut := by
  rw [attachHop] at hrh
  split at hrh
  · cases hrh
  · next pool hpool =>
    have hid := hkeyed _ _ hpool
    split at hrh
    · cases hrh
    · next hin =>
      split at hrh
      · cases hrh
      · next hout =>
        split at hrh
        · cases hrh
        · next hne =>
          cases hrh
          refine ⟨?_, ?_, by simpa using hin, by simpa using hout, hne, rfl⟩
          · rw [RouteHop.hop, hid]
          · rw [hid]
            exact hpool

theorem attachHops_eq_ok {hops : List Hop} {rhs : List RouteHop} (hkeyed : m.snapshot.Keyed)
    (h : m.attachHops denomIn hops = .ok rhs) :
    rhs.map RouteHop.hop = hops ∧
      Connects m.snapshot denomIn ((hops.getLast?.map (·.denomOut)).getD denomIn) rhs := by
  induction hops generalizing denomIn rhs with
  | nil =>
    cases h
    exact ⟨rfl, rfl⟩
  | cons hop rest ih =>
    obtain ⟨rh, hrh, h1⟩ := bind_eq_ok_iff.1 h
    obtain ⟨others, hothers, h2⟩ := bind_eq_ok_iff.1 h1
    cases h2
    obtain ⟨hhop, hget, hin, hout, hne, -⟩ := attachHop_eq_ok hkeyed hrh
    obtain ⟨hmap, hconnects⟩ := ih hothers
    have hdenom : rh.denomOut = hop.denomOut := by
      rw [← hhop]
      rfl
    have hlast : ((hop :: rest).getLast?.map (·.denomOut)).getD denomIn
        = (rest.getLast?.map (·.denomOut)).getD hop.denomOut := by
      rw [List.getLast?_cons]
      cases rest.getLast? with
      | none => rfl
      | some x => rfl
    refine ⟨by rw [List.map_cons, hhop, hmap], hget, hin, hout, hne, ?_⟩
    rw [hlast, hdenom]
    exact hconnects

/-- Every attached hop goes through a pool of the snapshot and pays the taker fee of a pair. -/
theorem mem_of_attachHops_eq_ok {hops : List Hop} {rhs : List RouteHop} (hkeyed : m.snapshot.Keyed)
    (h : m.attachHops denomIn hops = .ok rhs) {rh : RouteHop} (hrh : rh ∈ rhs) :
    m.snapshot.get? rh.pool.id = some rh.pool ∧ ∃ a b, rh.takerFee = m.takerFee a b := by
  induction hops generalizing denomIn rhs with
  | nil =>
    cases h
    cases hrh
  | cons hop rest ih =>
    obtain ⟨first, hfirst, h1⟩ := bind_eq_ok_iff.1 h
    obtain ⟨others, hothers, h2⟩ := bind_eq_ok_iff.1 h1
    cases h2
    rcases List.mem_cons.1 hrh with rfl | hrh
    · obtain ⟨-, hget, -, -, -, hfee⟩ := attachHop_eq_ok hkeyed hfirst
      exact ⟨hget, _, _, hfee⟩
    · exact ih hothers hrh

theorem attach_eq_ok {c : CandidateRoute} {r : Route} (h : m.attach denomIn c = .ok r) :
    m.attachHops denomIn c.hops = .ok r.hops := by
  rw [attach] at h
  split at h
  · cases h
  · obtain ⟨hops, hhops, h1⟩ := bind_eq_ok_iff.1 h
    cases h1
    exact hhops

/-- A candidate that attaches is the candidate of its route. -/
theorem candidate_of_attach_eq_ok {c : CandidateRoute} {r : Route} (hkeyed : m.snapshot.Keyed)
    (h : m.attach denomIn c = .ok r) : r.candidate = c := by
  have hmap := (attachHops_eq_ok hkeyed (attach_eq_ok h)).1
  rw [Route.candidate]
  exact congrArg CandidateRoute.mk hmap

theorem connects_of_attach_eq_ok {c : CandidateRoute} {r : Route} (hkeyed : m.snapshot.Keyed)
    (h : m.attach denomIn c = .ok r) (hend : c.denomOut? = some denomOut) :
    Connects m.snapshot denomIn denomOut r.hops := by
  have hconnects := (attachHops_eq_ok hkeyed (attach_eq_ok h)).2
  rw [CandidateRoute.denomOut?] at hend
  rw [hend] at hconnects
  exact hconnects

end Market

/-! ## Candidates of routes -/

namespace Route

theorem poolIds_candidate (r : Route) : r.candidate.poolIds = r.poolIds := by
  rw [CandidateRoute.poolIds, candidate, List.map_map]
  rfl

theorem denomOut?_candidate (r : Route) : r.candidate.denomOut? = r.denomOut? := by
  rw [CandidateRoute.denomOut?, candidate, List.getLast?_map, Option.map_map]
  rfl

end Route

theorem Router.attachAll_fst (m : Market) (denomIn : Denom) (cs : List CandidateRoute) :
    (Router.attachAll m denomIn cs).1 = cs.filterMap fun c => (m.attach denomIn c).toOption := by
  induction cs with
  | nil => rfl
  | cons c rest ih =>
    rw [attachAll, List.filterMap_cons]
    cases h : m.attach denomIn c with
    | error e => exact ih
    | ok r => exact congrArg (r :: ·) ih

theorem Router.mem_attachAll {m : Market} {denomIn : Denom} {cs : List CandidateRoute} {r : Route} :
    r ∈ (Router.attachAll m denomIn cs).1 ↔ ∃ c ∈ cs, m.attach denomIn c = .ok r := by
  rw [attachAll_fst, List.mem_filterMap]
  simp only [toOption_eq_some_iff]

end SwapRouting
