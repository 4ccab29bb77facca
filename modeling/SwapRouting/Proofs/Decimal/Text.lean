import Mathlib.Data.List.Basic
import SwapRouting.Decimal.Text

/-! Decimals that are written and read back.

The digits of a decimal are those of its coefficient, with zeros in front of them where the places go
further. A reader that goes over such digits has at every moment a part of the coefficient, which fits, so
nothing is rounded away, and it has counted every place: the zeros at the end come back, too. -/
namespace SwapRouting
set_option autoImplicit false

/-! ## Digits -/

theorem le_ofDigitChars (ds : List Char) (m : Nat) : m ≤ Nat.ofDigitChars 10 ds m := by
  induction ds generalizing m with
  | nil => exact Nat.le_refl m
  | cons c ds ih =>
    rw [Nat.ofDigitChars_cons]
    have hrest := ih (10 * m + (c.toNat - '0'.toNat))
    omega

theorem ofDigitChars_replicate_zero (k : Nat) : Nat.ofDigitChars 10 (List.replicate k '0') 0 = 0 := by
  induction k with
  | zero => rfl
  | succ k ih =>
    rw [List.replicate_succ, Nat.ofDigitChars_cons]
    exact ih

/-- Digits with zeros in front of them. -/
def paddedDigits (m k : Nat) : List Char := List.replicate k '0' ++ Nat.toDigits 10 m

theorem ofDigitChars_paddedDigits (m k : Nat) : Nat.ofDigitChars 10 (paddedDigits m k) 0 = m := by
  rw [paddedDigits, Nat.ofDigitChars_append, ofDigitChars_replicate_zero, Nat.ofDigitChars_ten_toDigits]

theorem isDigit_of_mem_paddedDigits {m k : Nat} {c : Char} (h : c ∈ paddedDigits m k) :
    c.isDigit = true := by
  rcases List.mem_append.1 h with hzero | hdigit
  · rw [List.eq_of_mem_replicate hzero]
    rfl
  · exact Nat.isDigit_of_mem_toDigits (by decide) (by decide) hdigit

theorem length_paddedDigits (m k : Nat) :
    (paddedDigits m k).length = k + (Nat.toDigits 10 m).length := by
  rw [paddedDigits, List.length_append, List.length_replicate]

theorem digitValue?_of_isDigit {c : Char} (h : c.isDigit = true) :
    digitValue? c = some (c.toNat - '0'.toNat) := if_pos h

namespace Decimal

/-! ## Reading digits that fit -/

section
variable {ds : List Char} {m s : Nat}

theorem scan_whole (hds : ∀ c ∈ ds, c.isDigit = true) (hfit : Nat.ofDigitChars 10 ds m < bound)
    (rest : List Char) :
    scan false true m s (ds ++ rest) = scan false true (Nat.ofDigitChars 10 ds m) s rest := by
  induction ds generalizing m with
  | nil => rfl
  | cons c ds ih =>
    have hdigit : c.isDigit = true := hds c (List.mem_cons_self ..)
    rw [Nat.ofDigitChars_cons] at hfit
    -- what is read so far never exceeds the whole coefficient, so no digit is too many
    have hpart : 10 * m + (c.toNat - '0'.toNat) < bound := Nat.lt_of_le_of_lt (le_ofDigitChars ds _) hfit
    rw [List.cons_append, scan, digitValue?_of_isDigit hdigit]
    simp only [if_neg (Nat.not_le.2 hpart), if_true]
    rw [ih (fun d hd => hds d (List.mem_cons_of_mem _ hd)) hfit, Nat.ofDigitChars_cons]

theorem scan_start (hne : ds ≠ []) (hds : ∀ c ∈ ds, c.isDigit = true)
    (hfit : Nat.ofDigitChars 10 ds m < bound) (rest : List Char) :
    scan false false m s (ds ++ rest) = scan false true (Nat.ofDigitChars 10 ds m) s rest := by
  cases ds with
  | nil => exact absurd rfl hne
  | cons c ds =>
    have hseen : scan false false m s (c :: ds ++ rest) = scan false true m s (c :: ds ++ rest) := by
      simp only [List.cons_append, scan, digitValue?_of_isDigit (hds c (List.mem_cons_self ..))]
    rw [hseen, scan_whole hds hfit]

theorem scan_fraction (hds : ∀ c ∈ ds, c.isDigit = true) (hfit : Nat.ofDigitChars 10 ds m < bound)
    (hplaces : s + ds.length ≤ maxScale) :
    scan true true m s ds = some (Nat.ofDigitChars 10 ds m, s + ds.length) := by
  induction ds generalizing m s with
  | nil => rfl
  | cons c ds ih =>
    have hdigit : c.isDigit = true := hds c (List.mem_cons_self ..)
    rw [Nat.ofDigitChars_cons] at hfit
    have hpart : 10 * m + (c.toNat - '0'.toNat) < bound := Nat.lt_of_le_of_lt (le_ofDigitChars ds _) hfit
    rw [List.length_cons] at hplaces
    rw [scan, digitValue?_of_isDigit hdigit]
    simp only [if_neg (Nat.not_le.2 hpart), Bool.true_eq_false, if_false]
    by_cases hlast : maxScale ≤ s + 1
    · -- the last place there is, behind which no digit is left to round by
      have hnil : ds = [] := List.length_eq_zero_iff.1 (by omega)
      subst hnil
      rw [if_pos hlast]
      rfl
    · rw [if_neg hlast, ih (fun d hd => hds d (List.mem_cons_of_mem _ hd)) hfit (by omega),
        Nat.ofDigitChars_cons, List.length_cons]
      congr 2
      omega

end

/-! ## Reading what was written -/

/-- The digits before and behind the point. -/
theorem placed_eq (m s : Nat) :
    ∃ whole fraction, whole ≠ [] ∧ (∀ c ∈ whole ++ fraction, c.isDigit = true)
      ∧ Nat.ofDigitChars 10 (whole ++ fraction) 0 = m ∧ fraction.length = s
      ∧ placed m s = whole ++ (if s = 0 then [] else '.' :: fraction) := by
  by_cases hs : s = 0
  · refine ⟨paddedDigits m 0, [], Nat.toDigits_ne_nil, ?_, ?_, hs.symm, ?_⟩
    · rw [List.append_nil]
      exact fun c hc => isDigit_of_mem_paddedDigits hc
    · rw [List.append_nil, ofDigitChars_paddedDigits]
    · rw [placed, if_pos hs, if_pos hs, List.append_nil]
      rfl
  · let padded := paddedDigits m (s + 1 - (Nat.toDigits 10 m).length)
    have hlong : s + 1 ≤ padded.length := by
      rw [length_paddedDigits]
      omega
    have hsplit := List.take_append_drop (padded.length - s) padded
    refine ⟨padded.take (padded.length - s), padded.drop (padded.length - s), ?_, ?_, ?_, ?_, ?_⟩
    · intro hnil
      have hnone := congrArg List.length hnil
      rw [List.length_take, List.length_nil] at hnone
      omega
    · rw [hsplit]
      exact fun c hc => isDigit_of_mem_paddedDigits hc
    · rw [hsplit, ofDigitChars_paddedDigits]
    · rw [List.length_drop]
      omega
    · rw [placed, if_neg hs, if_neg hs]
      rfl

theorem scan_placed {m s : Nat} (hm : m < bound) (hs : s ≤ maxScale) :
    scan false false 0 0 (placed m s) = some (m, s) := by
  obtain ⟨whole, fraction, hne, hdigits, hvalue, hlength, hplaced⟩ := placed_eq m s
  rw [Nat.ofDigitChars_append] at hvalue
  have hwhole : ∀ c ∈ whole, c.isDigit = true := fun c hc => hdigits c (List.mem_append_left _ hc)
  have hfraction : ∀ c ∈ fraction, c.isDigit = true := fun c hc => hdigits c (List.mem_append_right _ hc)
  have hfit : Nat.ofDigitChars 10 fraction (Nat.ofDigitChars 10 whole 0) < bound := by rwa [hvalue]
  rw [hplaced, scan_start hne hwhole (Nat.lt_of_le_of_lt (le_ofDigitChars fraction _) hfit)]
  by_cases hzero : s = 0
  · have hnil : fraction = [] := List.length_eq_zero_iff.1 (hlength.trans hzero)
    subst hnil
    rw [if_pos hzero, hzero]
    exact congrArg (fun k => some (k, 0)) hvalue
  · have hpoint : digitValue? '.' = none := rfl
    rw [if_neg hzero, scan, hpoint]
    simp only [and_self, if_true]
    rw [scan_fraction hfraction hfit (by omega), hvalue, Nat.zero_add, hlength]

theorem parse?_digits {cs : List Char} (h : ∀ c ∈ cs.head?, c.isDigit = true) :
    parse? cs = (scan false false 0 0 cs).bind fun x => make? x.1 x.2 := by
  rw [parse?]
  · rintro r rfl
    exact absurd (h '-' rfl) (by decide)
  · rintro r rfl
    exact absurd (h '+' rfl) (by decide)

theorem make?_of_eq {a : Decimal} {c : Int} (h : c = a.coefficient) : make? c a.scale = some a := by
  rw [h]
  exact dif_pos ⟨a.coefficient_lt, a.scale_le⟩

theorem parse?_chars (a : Decimal) : parse? a.chars = some a := by
  have hscan : scan false false 0 0 (placed a.mantissa a.scale) = some (a.mantissa, a.scale) :=
    scan_placed a.coefficient_lt a.scale_le
  rw [chars]
  by_cases hsign : a.isNegative = true
  · have hvalue : -(a.mantissa : Int) = a.coefficient := by
      have hlt := of_decide_eq_true hsign
      rw [mantissa]
      omega
    rw [if_pos hsign, parse?, hscan, Option.bind_some]
    exact make?_of_eq hvalue
  · have hvalue : (a.mantissa : Int) = a.coefficient := by
      have hge : ¬a.coefficient < 0 := fun hlt => hsign (decide_eq_true hlt)
      rw [mantissa]
      omega
    obtain ⟨whole, fraction, hne, hdigits, -, -, hplaced⟩ := placed_eq a.mantissa a.scale
    have hhead : ∀ c ∈ (placed a.mantissa a.scale).head?, c.isDigit = true := by
      cases whole with
      | nil => exact absurd rfl hne
      | cons d r =>
        rw [hplaced]
        rintro c ⟨⟩
        exact hdigits d (List.mem_cons_self ..)
    rw [if_neg hsign, parse?_digits hhead, hscan, Option.bind_some]
    exact make?_of_eq hvalue

/-- What is written is read back, with every place. -/
theorem read?_text (a : Decimal) : read? a.text = some a := by
  rw [read?, text, String.toList_ofList, parse?_chars]
  rfl

end Decimal

end SwapRouting
