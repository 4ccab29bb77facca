import SwapRouting.Proofs.Route.Reversal
import SwapRouting.Proofs.Router.Quotes

/-! Routes through given pools.

Only the pools of such a route are given; the denoms between them are searched for. Every denom that a pool
shares with the next one is tried, and what follows is searched again for each of them, so hops are found
exactly if some denoms lead through the pools. Without them the request is refused as invalid. -/
namespace SwapRouting
set_option autoImplicit false

/-- The steps from each denom to the next one. -/
def steps (denoms : List Denom) : List (Denom × Denom) := denoms.zip denoms.tail

/-- Whether denoms between two others lead through pools in their order: each pool takes one step, to another
denom, and holds both denoms of its step. -/
def LeadsThrough (s : PoolSnapshot) (ids : List Nat) (denomIn denomOut : Denom)
    (between : List Denom) : Prop :=
  List.Forall₂ (fun id step => s.Trades id step.1 step.2) ids
    (steps (denomIn :: (between ++ [denomOut])))

section
variable {s : PoolSnapshot} {id : Nat} {ids : List Nat} {denomIn denomOut : Denom}
  {between : List Denom}

theorem not_leadsThrough_nil : ¬ LeadsThrough s [] denomIn denomOut between := by
  intro h
  cases between with
  | nil => cases h
  | cons d rest => cases h

theorem leadsThrough_nil_iff : LeadsThrough s (id :: ids) denomIn denomOut [] ↔
    s.Trades id denomIn denomOut ∧ ids = [] := by
  show List.Forall₂ _ (id :: ids) [(denomIn, denomOut)] ↔ _
  rw [List.forall₂_cons, List.forall₂_nil_right_iff]

theorem leadsThrough_cons_iff {d : Denom} : LeadsThrough s (id :: ids) denomIn denomOut (d :: between) ↔
    s.Trades id denomIn d ∧ LeadsThrough s ids d denomOut between :=
  List.forall₂_cons

theorem LeadsThrough.trades (h : LeadsThrough s (id :: ids) denomIn denomOut between) :
    ∃ d, s.Trades id denomIn d := by
  cases between with
  | nil => exact ⟨denomOut, (leadsThrough_nil_iff.1 h).1⟩
  | cons d rest => exact ⟨d, (leadsThrough_cons_iff.1 h).1⟩

/-- The denoms that hops pay out lead through their pools. -/
theorem leadsThrough_of_tradable {hops : List Hop} {h : Hop} (htradable : Tradable s denomIn (hops ++ [h])) :
    LeadsThrough s ((hops ++ [h]).map Hop.pool) denomIn h.denomOut (hops.map Hop.denomOut) := by
  induction hops generalizing denomIn with
  | nil => exact leadsThrough_nil_iff.2 ⟨htradable.1, rfl⟩
  | cons x rest ih => exact leadsThrough_cons_iff.2 ⟨htradable.1, ih htradable.2⟩

theorem PoolSnapshot.trades_iff {p : Pool} {a b : Denom} (h : s.get? p.id = some p) :
    s.Trades p.id a b ↔ p.holds a ∧ p.holds b ∧ a ≠ b := by
  simp only [PoolSnapshot.Trades, h, Option.some.injEq, exists_eq_left']

end

namespace Router

/-! ## The search for denoms -/

section
variable {s : PoolSnapshot} {denomIn denomOut : Denom} {pools : List Pool}

/-- Hops that are found trade, each for what the hop before it paid. -/
theorem tradable_of_connect? (hpools : ∀ p ∈ pools, s.get? p.id = some p) {hops : List Hop}
    (h : connect? denomIn denomOut pools = some hops) : Tradable s denomIn hops := by
  induction pools generalizing denomIn hops with
  | nil => cases h
  | cons p rest ih =>
    have hp := hpools p (List.mem_cons_self ..)
    cases rest with
    | nil =>
      rw [connect?] at h
      split at h
      · next hholds =>
        cases h
        simp only [Bool.and_eq_true, bne_iff_ne] at hholds
        exact ⟨(PoolSnapshot.trades_iff hp).2 ⟨hholds.1.1, hholds.2, hholds.1.2⟩, trivial⟩
      · cases h
    | cons next others =>
      rw [connect?] at h
      split at h
      · cases h
      · next hin =>
        obtain ⟨d, hd, hfound⟩ := List.exists_of_findSome?_eq_some h
        obtain ⟨tail, htail, rfl⟩ := Option.map_eq_some_iff.1 hfound
        obtain ⟨hmem, hshared⟩ := List.mem_filter.1 hd
        rw [Bool.and_eq_true, bne_iff_ne] at hshared
        have hholds : p.holds d := List.contains_iff_mem.2 hmem
        refine ⟨(PoolSnapshot.trades_iff hp).2 ⟨by simpa using hin, hholds, hshared.1.symm⟩, ?_⟩
        exact ih (fun x hx => hpools x (List.mem_cons_of_mem _ hx)) htail

/-- No choice of a denom rules out the denoms that lead on: where one choice ends nowhere the next one is
tried. -/
theorem connect?_isSome (hpools : ∀ p ∈ pools, s.get? p.id = some p) {between : List Denom}
    (h : LeadsThrough s (pools.map (·.id)) denomIn denomOut between) :
    ∃ hops, connect? denomIn denomOut pools = some hops := by
  induction pools generalizing denomIn between with
  | nil => exact absurd h not_leadsThrough_nil
  | cons p rest ih =>
    have hp := hpools p (List.mem_cons_self ..)
    cases rest with
    | nil =>
      cases between with
      | nil =>
        obtain ⟨hin, hout, hne⟩ := (PoolSnapshot.trades_iff hp).1 (leadsThrough_nil_iff.1 h).1
        rw [connect?, if_pos (by simp [hin, hout, hne])]
        exact ⟨_, rfl⟩
      | cons d ds => exact absurd (leadsThrough_cons_iff.1 h).2 not_leadsThrough_nil
    | cons next others =>
      cases between with
      | nil => cases (leadsThrough_nil_iff.1 h).2
      | cons d ds =>
        obtain ⟨htrades, hrest⟩ := leadsThrough_cons_iff.1 h
        obtain ⟨hin, hout, hne⟩ := (PoolSnapshot.trades_iff hp).1 htrades
        obtain ⟨tail, htail⟩ := ih (fun x hx => hpools x (List.mem_cons_of_mem _ hx)) hrest
        obtain ⟨e, hnext⟩ := hrest.trades
        have hshared := ((PoolSnapshot.trades_iff (hpools next (by simp))).1 hnext).1
        have hd : d ∈ p.denoms.filter fun d => d != denomIn && next.holds d :=
          List.mem_filter.2 ⟨List.contains_iff_mem.1 hout, by simp [hne.symm, hshared]⟩
        rw [connect?, if_neg (by simp [hin]), ← Option.isSome_iff_exists, List.findSome?_isSome_iff]
        exact ⟨d, hd, by rw [htail]; rfl⟩

/-- Hops are found exactly if denoms lead through the pools. -/
theorem connect?_isSome_iff (hpools : ∀ p ∈ pools, s.get? p.id = some p) :
    (∃ hops, connect? denomIn denomOut pools = some hops) ↔
      ∃ between, LeadsThrough s (pools.map (·.id)) denomIn denomOut between := by
  constructor
  · rintro ⟨hops, h⟩
    obtain ⟨hmap, hlast⟩ := connect?_eq_some h
    obtain ⟨last, hend, rfl⟩ := Option.map_eq_some_iff.1 hlast
    obtain ⟨front, rfl⟩ := List.getLast?_eq_some_iff.1 hend
    exact ⟨_, hmap ▸ leadsThrough_of_tradable (tradable_of_connect? hpools h)⟩
  · rintro ⟨between, h⟩
    exact connect?_isSome hpools h

end

/-! ## Requests with distinct pools -/

variable {r : Router} {ids : List Nat} {pools : List Pool} {tokenIn : Coin} {denomOut : Denom}

theorem firstRepeated?_of_nodup {seen : List Nat} (hnodup : ids.Nodup)
    (hfresh : List.Disjoint ids seen) : firstRepeated? seen ids = none := by
  induction ids generalizing seen with
  | nil => rfl
  | cons id rest ih =>
    obtain ⟨hnew, hrest⟩ := List.nodup_cons.1 hnodup
    obtain ⟨hid, hdisjoint⟩ := List.disjoint_cons_left.1 hfresh
    rw [firstRepeated?, if_neg (by simpa using hid)]
    exact ih hrest (List.disjoint_cons_right.2 ⟨hnew, hdisjoint⟩)

theorem mapM_pool_isOk (h : ∀ id ∈ ids, ∃ p, r.generation.snapshot.get? id = some p) :
    ∃ pools, ids.mapM r.pool = .ok pools := by
  simp only [mapM_eq_ok_iff]
  induction ids with
  | nil => exact ⟨[], .nil⟩
  | cons id rest ih =>
    obtain ⟨⟨p, hp⟩, hrest⟩ := List.forall_mem_cons.1 h
    obtain ⟨others, hothers⟩ := ih hrest
    exact ⟨p :: others, .cons (orError_eq_ok_iff.2 hp) hothers⟩

theorem get?_id_of_mapM_pool_eq_ok (hkeyed : r.generation.snapshot.Keyed)
    (h : ids.mapM r.pool = .ok pools) : ∀ p ∈ pools, r.generation.snapshot.get? p.id = some p := by
  rw [mapM_eq_ok_iff] at h
  induction h with
  | nil => simp
  | cons hp _ ih =>
    have hget := orError_eq_ok_iff.1 hp
    rw [List.forall_mem_cons, hkeyed _ _ hget]
    exact ⟨hget, ih⟩

theorem validateRequest_of_accepts {denomIn : Denom} {amount : Nat} (hne : denomIn ≠ denomOut)
    (hamount : 0 < amount) (hin : r.tokens.accepts denomIn) (hout : r.tokens.accepts denomOut) :
    r.validateRequest denomIn denomOut amount = .ok () := by
  rw [validateRequest, if_neg hne, if_neg hamount.ne', if_neg (by simp [hin]),
    if_neg (by simp [hout])]

section
variable (hvalid : r.validateRequest tokenIn.denom denomOut tokenIn.amount = .ok ())
  (hnodup : ids.Nodup) (hpools : ids.mapM r.pool = .ok pools)
include hvalid hnodup hpools

theorem customCandidate_of_connect?_eq_some {hops : List Hop}
    (h : connect? tokenIn.denom denomOut pools = some hops) :
    r.customCandidate tokenIn denomOut ids = .ok ⟨hops⟩ := by
  have hids : ids ≠ [] := by
    rintro rfl
    cases hpools
    cases h
  have hfresh := firstRepeated?_of_nodup hnodup (List.disjoint_nil_right ids)
  refine bind_eq_ok_iff.2 ⟨(), hvalid, ?_⟩
  rw [if_neg (by simpa using hids), hfresh]
  refine bind_eq_ok_iff.2 ⟨pools, hpools, ?_⟩
  exact bind_eq_ok_iff.2 ⟨hops, orError_eq_ok_iff.2 h, rfl⟩

theorem customCandidate_of_connect?_eq_none (h : connect? tokenIn.denom denomOut pools = none) :
    ∃ e, r.customCandidate tokenIn denomOut ids = .error e ∧ e.kind = .validation := by
  have hfresh := firstRepeated?_of_nodup hnodup (List.disjoint_nil_right ids)
  by_cases hids : ids = []
  · refine ⟨.noPoolIds, bind_eq_error_iff.2 (Or.inr ⟨(), hvalid, ?_⟩), rfl⟩
    rw [if_pos (by simpa using hids)]
  · refine ⟨.disconnected ids tokenIn.denom denomOut,
      bind_eq_error_iff.2 (Or.inr ⟨(), hvalid, ?_⟩), rfl⟩
    rw [if_neg (by simpa using hids), hfresh]
    refine bind_eq_error_iff.2 (Or.inr ⟨pools, hpools, ?_⟩)
    exact bind_eq_error_iff.2 (Or.inl (orError_eq_error_iff.2 ⟨h, rfl⟩))

end

/-- Routes through pools that are found exactly if there are any. What is found goes through all the pools
in their order, fits the snapshot, leads to `denomOut` and is what gets quoted; where there is nothing to
find, the request is refused as invalid. -/
structure RoutesExactly (r : Router) (tokenIn : Coin) (denomOut : Denom) (ids : List Nat)
    (found : Option (List Hop)) : Prop where
  exact : (∃ hops, found = some hops) ↔
    ∃ between, LeadsThrough r.generation.snapshot ids tokenIn.denom denomOut between
  inOrder : ∀ hops, found = some hops → (CandidateRoute.mk hops).poolIds = ids
  ends : ∀ hops, found = some hops → (CandidateRoute.mk hops).denomOut? = some denomOut
  attaches : ∀ hops, found = some hops → ∃ route, r.market.attach tokenIn.denom ⟨hops⟩ = .ok route
  quoted : ∀ hops, found = some hops → ∀ ctx,
    r.customQuote ctx tokenIn denomOut ids = r.quoteCandidate ctx tokenIn denomOut ⟨hops⟩
  refused : (¬ ∃ between, LeadsThrough r.generation.snapshot ids tokenIn.denom denomOut between) →
    ∀ ctx, ∃ e, (r.customQuote ctx tokenIn denomOut ids).1 = .error e ∧ e.kind = .validation

/-- Between different known denoms, routes through distinct pools of a snapshot are found exactly if there
are any. -/
theorem routesExactly_of_nodup (hkeyed : r.generation.snapshot.Keyed)
    (hne : tokenIn.denom ≠ denomOut) (hamount : 0 < tokenIn.amount)
    (hin : r.tokens.accepts tokenIn.denom) (hout : r.tokens.accepts denomOut) (hnodup : ids.Nodup)
    (hids : ∀ id ∈ ids, ∃ p, r.generation.snapshot.get? id = some p) :
    ∃ pools, ids.mapM r.pool = .ok pools ∧
      r.RoutesExactly tokenIn denomOut ids (connect? tokenIn.denom denomOut pools) := by
  obtain ⟨pools, hpools⟩ := mapM_pool_isOk hids
  have hget := get?_id_of_mapM_pool_eq_ok hkeyed hpools
  have hmap : pools.map (·.id) = ids := map_id_of_mapM_pool_eq_ok hkeyed hpools
  have hvalid := validateRequest_of_accepts hne hamount hin hout
  have hexact : (∃ hops, connect? tokenIn.denom denomOut pools = some hops) ↔
      ∃ between, LeadsThrough r.generation.snapshot ids tokenIn.denom denomOut between := by
    rw [connect?_isSome_iff hget, hmap]
  refine ⟨pools, hpools, hexact, ?_, ?_, ?_, ?_, ?_⟩
  · intro hops h
    exact (connect?_eq_some h).1.trans hmap
  · intro hops h
    exact (connect?_eq_some h).2
  · intro hops h
    have hlast := (connect?_eq_some h).2
    refine Market.attach_isOk_iff.2 ⟨?_, tradable_of_connect? hget h⟩
    rintro rfl
    cases hlast
  · intro hops h ctx
    rw [customQuote, customCandidate_of_connect?_eq_some hvalid hnodup hpools h]
  · intro hnone ctx
    have h : connect? tokenIn.denom denomOut pools = none := by
      rw [← hexact, ← Option.ne_none_iff_exists'] at hnone
      exact not_not.1 hnone
    obtain ⟨e, he, hkind⟩ := customCandidate_of_connect?_eq_none hvalid hnodup hpools h
    exact ⟨e, by rw [customQuote, he], hkind⟩

/-! ## A dead end on the way -/

/-- A pool of three denoms. -/
def forkPool : Pool :=
  PoolRecord.transmuter ⟨1, .contract 7 .transmuter, ["a", "x", "b"],
    [⟨"a", 1000⟩, ⟨"x", 1000⟩, ⟨"b", 1000⟩], Decimal.zero, 1000⟩

/-- The router after a block with three pools. The first two share `x` and `b`; through the second one `x`
leads nowhere, and `b` leads to `x`. -/
def crossroads : Router := bridgeStart.run
  [.block ⟨1, [forkPool, bridgePool 2 "b" "x", bridgePool 3 "x" "c"], []⟩ { transmuter := [7] }]

theorem crossroads_routesExactly :
    crossroads.customCandidate ⟨"a", 100⟩ "c" [1, 2, 3] = .ok ⟨[⟨1, "b"⟩, ⟨2, "x"⟩, ⟨3, "c"⟩]⟩ ∧
      ∃ pools, [1, 2, 3].mapM crossroads.pool = .ok pools ∧
        crossroads.RoutesExactly ⟨"a", 100⟩ "c" [1, 2, 3] (connect? "a" "c" pools) := by
  have hreachable : crossroads.Reachable :=
    ⟨bridgeStart, _, ⟨bridgeStart.config, bridgeStart.tokens, true, false, none, by decide +kernel⟩, rfl⟩
  have hids : ([1, 2, 3].all fun id => (crossroads.generation.snapshot.get? id).isSome) = true := by
    decide +kernel
  refine ⟨by decide +kernel, routesExactly_of_nodup hreachable.sound.keyed (by decide) (by decide)
    (by decide +kernel) (by decide +kernel) (by decide) ?_⟩
  intro id hid
  exact Option.isSome_iff_exists.1 (List.all_eq_true.1 hids id hid)

end Router

end SwapRouting
