import SwapRouting.Proofs.Route.Price

/-! The compounded fee of a route.

Where no hop takes more than the whole, the exact total behind one more hop lies between the total before it
and one, and between the fee of the hop and the sum of both. These bounds are whole numbers of units, so a
product that is rounded to the nearest unit keeps them, hop after hop. -/
namespace SwapRouting
set_option autoImplicit false

open Decimal

/-- Whether spread and taker fee of a hop are not negative and take no more than the whole together. -/
structure RouteHop.FairFees (h : RouteHop) : Prop where
  spread : 0 ≤ h.pool.spread.units
  takerFee : 0 ≤ h.takerFee.units
  sum : h.feeUnits ≤ (unit : Nat)

/-! ## One more hop -/

section
variable {t : Decimal} {h : RouteHop}

theorem RouteHop.FairFees.nonneg (hh : h.FairFees) : 0 ≤ h.feeUnits := Int.add_nonneg hh.spread hh.takerFee

/-- How the total behind a hop lies to the total before it and to the fee of the hop. -/
structure Compounds (t : Decimal) (h : RouteHop) (total : Decimal) : Prop where
  before : t.units ≤ total.units
  fee : h.feeUnits ≤ total.units
  le_one : total.units ≤ (unit : Nat)
  le_sum : total.units ≤ t.units + h.feeUnits

theorem compound_compounds (ht0 : 0 ≤ t.units) (ht1 : t.units ≤ (unit : Nat)) (hh : h.FairFees) :
    ∃ total, Route.compound t h = some total ∧ Compounds t h total := by
  have hfee0 := hh.nonneg
  have hfee1 := hh.sum
  obtain ⟨total, htotal, hnear⟩ := compound_nearest (h := h) ⟨ht0, by omega⟩ hfee0 (by omega)
  -- each bound leaves a product of two numbers, neither of them negative
  have hboth : 0 ≤ t.units * h.feeUnits := Int.mul_nonneg ht0 hfee0
  have hleft : 0 ≤ ((unit : Nat) - t.units) * h.feeUnits := Int.mul_nonneg (by omega) hfee0
  have hkept : 0 ≤ t.units * ((unit : Nat) - h.feeUnits) := Int.mul_nonneg ht0 (by omega)
  have hrest : 0 ≤ ((unit : Nat) - t.units) * ((unit : Nat) - h.feeUnits) :=
    Int.mul_nonneg (by omega) (by omega)
  refine ⟨total, htotal, ?_⟩
  constructor
  · exact hnear.ge (by linarith only [hleft])
  · exact hnear.ge (by linarith only [hkept])
  · exact hnear.le (by linarith only [hrest])
  · exact hnear.le (by linarith only [hboth])

end

/-! ## All hops -/

/-- How a total lies to the total before a list of hops and to their fees. -/
structure CompoundsAll (t : Decimal) (hops : List RouteHop) (total : Decimal) : Prop where
  before : t.units ≤ total.units
  fee : ∀ h ∈ hops, h.feeUnits ≤ total.units
  le_one : total.units ≤ (unit : Nat)
  le_sum : total.units ≤ t.units + (hops.map RouteHop.feeUnits).sum

theorem foldlM_compound_compounds {hops : List RouteHop} (hfees : ∀ h ∈ hops, h.FairFees) {t : Decimal}
    (ht0 : 0 ≤ t.units) (ht1 : t.units ≤ (unit : Nat)) :
    ∃ total, hops.foldlM Route.compound t = some total ∧ CompoundsAll t hops total := by
  induction hops generalizing t with
  | nil => exact ⟨t, rfl, Int.le_refl _, nofun, ht1, by simp⟩
  | cons h rest ih =>
    -- the total stays between zero and one, so it is fit to be the start of the rest
    obtain ⟨next, hnext, hstep⟩ := compound_compounds ht0 ht1 (hfees h (List.mem_cons_self ..))
    obtain ⟨total, htotal, hrest⟩ := ih (fun x hx => hfees x (List.mem_cons_of_mem _ hx))
      (ht0.trans hstep.before) hstep.le_one
    refine ⟨total, ?_, ?_⟩
    · rw [List.foldlM_cons, hnext]
      exact htotal
    · constructor
      · exact hstep.before.trans hrest.before
      · intro x hx
        rcases List.mem_cons.1 hx with rfl | hx
        · exact hstep.fee.trans hrest.before
        · exact hrest.fee x hx
      · exact hrest.le_one
      · have hsum := hstep.le_sum
        have hsums := hrest.le_sum
        rw [List.map_cons, List.sum_cons]
        omega

namespace Route

/-- The fee that a route compounds to. -/
structure CompoundedFee (r : Route) (total : Decimal) : Prop where
  totalFee : r.totalFee = some total
  /-- No hop alone takes more. -/
  hop_le : ∀ h ∈ r.hops, h.feeUnits ≤ total.units
  le_min : total.units ≤ min ((unit : Nat) : Int) (r.hops.map RouteHop.feeUnits).sum
  /-- One more hop never lowers it. -/
  appended : ∀ (longer : Route) (h : RouteHop), longer.hops = r.hops ++ [h] → h.FairFees →
    ∃ more, longer.totalFee = some more ∧ total.units ≤ more.units

theorem totalFee_compounded {r : Route} (hfees : ∀ h ∈ r.hops, h.FairFees) :
    ∃ total, r.CompoundedFee total := by
  have hzero : (0 : Int) ≤ (unit : Nat) := Int.natCast_nonneg _
  obtain ⟨total, htotal, hall⟩ := foldlM_compound_compounds (t := zero) hfees (Int.le_refl _) hzero
  refine ⟨total, htotal, hall.fee, ?_, ?_⟩
  · have hsum := hall.le_sum
    rw [units_zero, Int.zero_add] at hsum
    exact le_min hall.le_one hsum
  · intro longer h hlonger hh
    obtain ⟨more, hmore, hstep⟩ := compound_compounds hall.before hall.le_one hh
    refine ⟨more, ?_, hstep.before⟩
    rw [Route.totalFee, hlonger, List.foldlM_append, htotal]
    show [h].foldlM compound total = some more
    rw [List.foldlM_cons, hmore]
    rfl

/-- A third to the last place. -/
def third : Decimal where
  coefficient := 3333333333333333333333333333
  scale := 28
  coefficient_lt := Nat.le_of_ble_eq_true rfl
  scale_le := Nat.le_of_ble_eq_true rfl

/-- A hop whose pool takes a third, behind a taker fee of a third. -/
def thirdHop (pool : Nat) (denomIn denomOut : Denom) : RouteHop where
  pool := PoolRecord.constantProduct
    ⟨pool, .constantProduct, [denomIn, denomOut], [⟨denomIn, 1000⟩, ⟨denomOut, 1000⟩], third, 0⟩
  denomOut := denomOut
  takerFee := third

def thirdsRoute : Route where
  hops := [thirdHop 1 "a" "b", thirdHop 2 "b" "c", thirdHop 3 "c" "d"]
  canonicalOrderbook := false

theorem fairFees_thirdHop (pool : Nat) (denomIn denomOut : Denom) :
    (thirdHop pool denomIn denomOut).FairFees := by
  constructor
  · show 0 ≤ third.units
    decide
  · show 0 ≤ third.units
    decide
  · show third.units + third.units ≤ (unit : Nat)
    decide

/-- Three hops that take two thirds each compound to 26 of 27 parts, rounded in the last place. -/
theorem thirdsRoute_compounded : (∀ h ∈ thirdsRoute.hops, h.FairFees) ∧
    ∃ total, thirdsRoute.CompoundedFee total ∧ total.units = 9629629629629629629629629629 := by
  have hfees : ∀ h ∈ thirdsRoute.hops, h.FairFees := by
    intro h hh
    simp only [thirdsRoute, List.mem_cons, List.not_mem_nil, or_false] at hh
    rcases hh with rfl | rfl | rfl
    all_goals exact fairFees_thirdHop _ _ _
  obtain ⟨total, hcompounded⟩ := totalFee_compounded hfees
  have hunits : thirdsRoute.totalFee.map Decimal.units = some 9629629629629629629629629629 := by
    decide +kernel
  rw [hcompounded.totalFee, Option.map_some, Option.some.injEq] at hunits
  exact ⟨hfees, total, hcompounded, hunits⟩

end Route

end SwapRouting
