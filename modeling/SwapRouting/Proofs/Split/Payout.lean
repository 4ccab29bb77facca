import Mathlib.Data.List.Basic
import SwapRouting.Proofs.Outcome
import SwapRouting.Route.Trade

/-! Shares and what they pay together.

Where one unit goes from a share to another, the payout changes by what the one route pays more and the other
one less. Shares are a local optimum if no such transfer raises the payout by more than a tolerance. -/
namespace SwapRouting
set_option autoImplicit false

/-! ## What shares pay -/

/-- What shares pay together, if each of them can be traded. -/
def payout (denomIn : Denom) : List (Route × Nat) → Except SwapError Nat
  | [] => .ok 0
  | s :: rest => do
    let out ← s.1.amountOut denomIn s.2
    let others ← payout denomIn rest
    .ok (out + others)

section
variable {denomIn : Denom} {shares : List (Route × Nat)}

theorem payout_cons_eq_ok_iff {s : Route × Nat} {n : Nat} :
    payout denomIn (s :: shares) = .ok n ↔ ∃ out others, s.1.amountOut denomIn s.2 = .ok out ∧
      payout denomIn shares = .ok others ∧ n = out + others := by
  rw [payout, bind_eq_ok_iff]
  constructor
  · rintro ⟨out, hout, h⟩
    obtain ⟨others, hothers, h⟩ := bind_eq_ok_iff.1 h
    cases h
    exact ⟨out, others, hout, hothers, rfl⟩
  · rintro ⟨out, others, hout, hothers, rfl⟩
    exact ⟨out, hout, bind_eq_ok_iff.2 ⟨others, hothers, rfl⟩⟩

theorem payout_isOk (h : ∀ s ∈ shares, ∃ out, s.1.amountOut denomIn s.2 = .ok out) :
    ∃ n, payout denomIn shares = .ok n := by
  induction shares with
  | nil => exact ⟨0, rfl⟩
  | cons s rest ih =>
    obtain ⟨out, hout⟩ := h s (List.mem_cons_self ..)
    obtain ⟨others, hothers⟩ := ih fun x hx => h x (List.mem_cons_of_mem s hx)
    exact ⟨_, payout_cons_eq_ok_iff.2 ⟨out, others, hout, hothers, rfl⟩⟩

theorem amountOut_of_payout {n : Nat} (h : payout denomIn shares = .ok n) {s : Route × Nat}
    (hs : s ∈ shares) : ∃ out, s.1.amountOut denomIn s.2 = .ok out := by
  induction shares generalizing n with
  | nil => cases hs
  | cons x rest ih =>
    obtain ⟨out, others, hout, hothers, -⟩ := payout_cons_eq_ok_iff.1 h
    rcases List.mem_cons.1 hs with rfl | hs
    · exact ⟨out, hout⟩
    · exact ih hothers hs

/-- Another share in one place changes the payout by the difference of the two. -/
theorem payout_set {n i out out' : Nat} {s s' : Route × Nat} (h : payout denomIn shares = .ok n)
    (hs : shares[i]? = some s) (hout : s.1.amountOut denomIn s.2 = .ok out)
    (hout' : s'.1.amountOut denomIn s'.2 = .ok out') :
    ∃ n', payout denomIn (shares.set i s') = .ok n' ∧ n' + out = n + out' := by
  induction shares generalizing n i with
  | nil => cases hs
  | cons x rest ih =>
    obtain ⟨first, others, hfirst, hothers, rfl⟩ := payout_cons_eq_ok_iff.1 h
    cases i with
    | zero =>
      rw [List.getElem?_cons_zero, Option.some.injEq] at hs
      subst hs
      rw [hfirst, Except.ok.injEq] at hout
      refine ⟨out' + others, payout_cons_eq_ok_iff.2 ⟨out', others, hout', hothers, rfl⟩, by omega⟩
    | succ i =>
      obtain ⟨n', hn', hsum⟩ := ih hothers (by simpa using hs)
      refine ⟨first + n', payout_cons_eq_ok_iff.2 ⟨first, n', hfirst, hn', rfl⟩, by omega⟩

end

/-! ## One unit from one share to another -/

/-- The shares after one unit went from one of them to another. -/
def transferred (donor receiver : Nat) (shares : List (Route × Nat)) : List (Route × Nat) :=
  (shares.modify donor fun s => (s.1, s.2 - 1)).modify receiver fun s => (s.1, s.2 + 1)

/-- A unit that can go from one share to another, with the payouts before and after. -/
structure Transfer (denomIn : Denom) (shares : List (Route × Nat))
    (donor receiver before after : Nat) : Prop where
  ne : donor ≠ receiver
  gives : ∃ s, shares[donor]? = some s ∧ 0 < s.2
  takes : receiver < shares.length
  before : payout denomIn shares = .ok before
  after : payout denomIn (transferred donor receiver shares) = .ok after

/-- Whether no unit that goes from one share to another raises the payout by more than `epsilon`. -/
def LocalOptimum (denomIn : Denom) (epsilon : Nat) (shares : List (Route × Nat)) : Prop :=
  ∀ ⦃donor receiver before after : Nat⦄, Transfer denomIn shares donor receiver before after →
    after ≤ before + epsilon

/-- What a transfer does to the two routes: the donor pays `d` before and `d'` after it, the receiver `r`
and `r'`. -/
structure Transfer.Pays (denomIn : Denom) (donor receiver : Route × Nat)
    (before after d d' r r' : Nat) : Prop where
  donorBefore : donor.1.amountOut denomIn donor.2 = .ok d
  donorAfter : donor.1.amountOut denomIn (donor.2 - 1) = .ok d'
  receiverBefore : receiver.1.amountOut denomIn receiver.2 = .ok r
  receiverAfter : receiver.1.amountOut denomIn (receiver.2 + 1) = .ok r'
  sum : after + d + r = before + d' + r'

section
variable {denomIn : Denom} {shares : List (Route × Nat)} {i j before after : Nat}
variable {donor receiver : Route × Nat}

theorem transferred_eq_set (hne : i ≠ j) (hdonor : shares[i]? = some donor)
    (hreceiver : shares[j]? = some receiver) :
    transferred i j shares
      = (shares.set i (donor.1, donor.2 - 1)).set j (receiver.1, receiver.2 + 1) := by
  have hstays : (shares.set i (donor.1, donor.2 - 1))[j]? = some receiver := by
    rw [List.getElem?_set_ne hne, hreceiver]
  rw [transferred, List.modify_eq_set_getElem? _ i, hdonor]
  simp only [Option.map_eq_map, Option.map_some, Option.getD_some]
  rw [List.modify_eq_set_getElem? _ j, hstays]
  rfl

theorem Transfer.pays (t : Transfer denomIn shares i j before after)
    (hdonor : shares[i]? = some donor) (hreceiver : shares[j]? = some receiver) :
    ∃ d d' r r', Pays denomIn donor receiver before after d d' r r' := by
  have hafter := transferred_eq_set t.ne hdonor hreceiver ▸ t.after
  have hlt : i < shares.length := (List.getElem?_eq_some_iff.1 hdonor).1
  have hstays : (shares.set i (donor.1, donor.2 - 1))[j]? = some receiver := by
    rw [List.getElem?_set_ne t.ne, hreceiver]
  obtain ⟨d, hd⟩ := amountOut_of_payout t.before (List.mem_of_getElem? hdonor)
  obtain ⟨r, hr⟩ := amountOut_of_payout t.before (List.mem_of_getElem? hreceiver)
  obtain ⟨d', hd'⟩ := amountOut_of_payout hafter (s := (donor.1, donor.2 - 1))
    (List.mem_of_getElem? (i := i) (by
      rw [List.getElem?_set_ne t.ne.symm, List.getElem?_set_self hlt]))
  obtain ⟨r', hr'⟩ := amountOut_of_payout hafter (s := (receiver.1, receiver.2 + 1))
    (List.mem_of_getElem? (i := j) (by rw [List.getElem?_set_self (by simpa using t.takes)]))
  -- first the donor's share changes, then the receiver's
  obtain ⟨between, hbetween, hgiven⟩ := payout_set t.before hdonor hd hd'
  obtain ⟨last, hlast, htaken⟩ := payout_set hbetween hstays hr hr'
  rw [hlast, Except.ok.injEq] at hafter
  exact ⟨d, d', r, r', hd, hd', hr, hr', by omega⟩

end

end SwapRouting
