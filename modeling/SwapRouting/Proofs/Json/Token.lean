import Mathlib.Data.List.Basic
import SwapRouting.Json.Printer
import SwapRouting.Json.Token

/-! Tokens of printed text.

A printed literal is scanned as the text it stands for, and a printed number as its digits. -/
namespace SwapRouting
set_option autoImplicit false

theorem hexValue?_hexDigit : ∀ n < 16, hexValue? (Json.hexDigit n) = some n := by decide

namespace Json

/-! ## Literals -/

/-- The piece that a printed character is read as. A control character without an escape of one letter
is read as a unit. -/
def piece (c : Char) : Piece :=
  if c.toNat < 32 ∧ c ∉ ['\x08', '\x0c', '\n', '\r', '\t'] then .unit c.toNat else .char c

/-- What is read behind a piece that was read. -/
def withPiece (p : Piece) (x : List Piece × List Char) : List Piece × List Char := (p :: x.1, x.2)

theorem units?_shortEscape {c e : Char} (h : shortEscape? c = some e) (rest : List Char) :
    units? ('\\' :: c :: rest) = (units? rest).map (withPiece (.char e)) := by
  have hne : c ≠ 'u' := by
    rintro rfl
    cases h
  rw [units?]
  · rw [h]
    cases units? rest with
    | none => rfl
    | some x => rfl
  · rintro a b c' d r hu -
    exact hne hu

theorem units?_unitEscape {n : Nat} (h : n < 32) (rest : List Char) :
    units? (['\\', 'u', '0', '0', hexDigit (n / 16), hexDigit (n % 16)] ++ rest)
      = (units? rest).map (withPiece (.unit n)) := by
  have hzero : hexValue? '0' = some 0 := rfl
  have hhigh : hexValue? (hexDigit (n / 16)) = some (n / 16) := hexValue?_hexDigit _ (by omega)
  have hlow : hexValue? (hexDigit (n % 16)) = some (n % 16) := hexValue?_hexDigit _ (by omega)
  have hvalue : ((0 * 16 + 0) * 16 + n / 16) * 16 + n % 16 = n := by omega
  show units? ('\\' :: 'u' :: '0' :: '0' :: hexDigit (n / 16) :: hexDigit (n % 16) :: rest) = _
  rw [units?, hzero, hhigh, hlow]
  simp only [Option.bind_eq_bind, Option.bind_some, hvalue]
  cases units? rest with
  | none => rfl
  | some x => rfl

theorem units?_plain {c : Char} (hquote : c ≠ '"') (hback : c ≠ '\\') (h : 32 ≤ c.toNat)
    (rest : List Char) : units? (c :: rest) = (units? rest).map (withPiece (.char c)) := by
  have hplain : ¬(c.toNat < 32 ∨ c = '\\') := by
    rintro (hlt | rfl)
    · omega
    · exact hback rfl
  rw [units?]
  · rw [if_neg hplain]
    rfl
  · exact hquote
  · intro a b c' d r hc
    exact absurd hc hback
  · intro c' r hc
    exact absurd hc hback

theorem units?_escaped (c : Char) (rest : List Char) :
    units? (escaped c ++ rest) = (units? rest).map (withPiece (piece c)) := by
  by_cases hquote : c = '"'
  · subst hquote
    exact units?_shortEscape rfl rest
  by_cases hback : c = '\\'
  · subst hback
    exact units?_shortEscape rfl rest
  by_cases hshort : c ∈ ['\x08', '\x0c', '\n', '\r', '\t']
  · simp only [List.mem_cons, List.not_mem_nil, or_false] at hshort
    rcases hshort with rfl | rfl | rfl | rfl | rfl
    all_goals exact units?_shortEscape rfl rest
  by_cases hcontrol : c.toNat < 32
  · have hpiece : piece c = .unit c.toNat := if_pos ⟨hcontrol, hshort⟩
    simp only [List.mem_cons, List.not_mem_nil, or_false, not_or] at hshort
    obtain ⟨h1, h2, h3, h4, h5⟩ := hshort
    rw [escaped, if_neg hquote, if_neg hback, if_neg h1, if_neg h2, if_neg h3, if_neg h4, if_neg h5,
      if_pos hcontrol, hpiece]
    exact units?_unitEscape hcontrol rest
  · have hpiece : piece c = .char c := if_neg fun h => hcontrol h.1
    simp only [List.mem_cons, List.not_mem_nil, or_false, not_or] at hshort
    obtain ⟨h1, h2, h3, h4, h5⟩ := hshort
    rw [escaped, if_neg hquote, if_neg hback, if_neg h1, if_neg h2, if_neg h3, if_neg h4, if_neg h5,
      if_neg hcontrol, hpiece]
    exact units?_plain hquote hback (by omega) rest

theorem units?_flatMap_escaped (cs rest : List Char) :
    units? (cs.flatMap escaped ++ '"' :: rest) = some (cs.map piece, rest) := by
  induction cs with
  | nil => simp [units?]
  | cons c cs ih =>
    rw [List.flatMap_cons, List.append_assoc, units?_escaped, ih]
    rfl

theorem joined?_unit {n : Nat} (h : n < 0xD800) (ps : List Piece) :
    joined? (.unit n :: ps) = (joined? ps).map (Char.ofNat n :: ·) := by
  have hhigh : ¬(0xD800 ≤ n ∧ n ≤ 0xDBFF) := by omega
  have hlow : ¬(0xDC00 ≤ n ∧ n ≤ 0xDFFF) := by omega
  have hnone : ¬(0xD800 ≤ n ∧ n ≤ 0xDFFF) := by omega
  cases ps with
  | nil => simp only [joined?, if_neg hnone]
  | cons p ps =>
    cases p with
    | char c => simp only [joined?, if_neg hnone]
    | unit lo => rw [joined?, if_neg hhigh, if_neg hlow]

theorem joined?_map_piece (cs : List Char) : joined? (cs.map piece) = some cs := by
  induction cs with
  | nil => rfl
  | cons c cs ih =>
    rw [List.map_cons, piece]
    split
    · next h =>
      rw [joined?_unit (by omega), ih, Char.ofNat_toNat]
      rfl
    · rw [joined?, ih]
      rfl

theorem token?_quoted (s : String) (rest : List Char) :
    token? '"' (s.toList.flatMap escaped ++ '"' :: rest) = some (.string (some s), rest) := by
  simp only [token?, units?_flatMap_escaped, Option.map_some, joined?_map_piece, String.ofList_toList]

/-! ## Numbers -/

/-- Whether a text does not go on with a number: it starts with no digit, point or power. -/
def EndsNumber (cs : List Char) : Prop :=
  ∀ c ∈ cs.head?, c.isDigit = false ∧ c ≠ '.' ∧ c ≠ 'e' ∧ c ≠ 'E'

theorem digitsOf_append {ds rest : List Char} (hds : ∀ c ∈ ds, c.isDigit = true)
    (hrest : EndsNumber rest) : digitsOf (ds ++ rest) = (ds, rest) := by
  have hnone : rest.takeWhile Char.isDigit = [] ∧ rest.dropWhile Char.isDigit = rest := by
    cases rest with
    | nil => exact ⟨rfl, rfl⟩
    | cons c r =>
      have hc := (hrest c rfl).1
      simp [hc]
  rw [digitsOf, List.takeWhile_append_of_pos hds, List.dropWhile_append_of_pos hds, hnone.1, hnone.2,
    List.append_nil]

/-- The digits of a number other than zero do not start with a zero. -/
theorem toDigits_eq_cons {n : Nat} (h : n ≠ 0) :
    ∃ c r, Nat.toDigits 10 n = c :: r ∧ c ≠ '0' := by
  induction n using Nat.strongRecOn with
  | ind n ih =>
    rw [Nat.toDigits_eq_if (by decide)]
    split
    · next hlt =>
      have hdigit : ∀ d < 10, d ≠ 0 → d.digitChar ≠ '0' := by decide
      exact ⟨n.digitChar, [], rfl, hdigit n hlt h⟩
    · next hge =>
      obtain ⟨c, r, hdigits, hc⟩ := ih (n / 10) (by omega) (by omega)
      exact ⟨c, r ++ [(n % 10).digitChar], by rw [hdigits]; rfl, hc⟩

theorem whole?_toDigits (n : Nat) {rest : List Char} (hrest : EndsNumber rest) :
    whole? (Nat.toDigits 10 n ++ rest) = some (Nat.toDigits 10 n, rest) := by
  by_cases hzero : n = 0
  · rw [hzero]
    rfl
  · have hdigits : digitsOf (Nat.toDigits 10 n ++ rest) = (Nat.toDigits 10 n, rest) :=
      digitsOf_append (fun _ h => Nat.isDigit_of_mem_toDigits (by decide) (by decide) h) hrest
    obtain ⟨c, r, hcons, hc⟩ := toDigits_eq_cons hzero
    have hwhole : whole? (Nat.toDigits 10 n ++ rest)
        = if (digitsOf (Nat.toDigits 10 n ++ rest)).1.isEmpty then none
          else some (digitsOf (Nat.toDigits 10 n ++ rest)) := by
      rw [hcons, List.cons_append, whole?]
      exact fun _ h => hc (List.cons.inj h).1
    rw [hwhole, hdigits, hcons]
    rfl

theorem number?_toDigits (n : Nat) {rest : List Char} (hrest : EndsNumber rest) :
    number? false (Nat.toDigits 10 n ++ rest) = some (Number.ofNat n, rest) := by
  have hfraction : fraction? rest = some ([], rest) := by
    cases rest with
    | nil => rfl
    | cons c r =>
      rw [fraction?]
      exact fun _ h => (hrest c rfl).2.1 (List.cons.inj h).1
  have hexponent : exponent? rest = some (none, rest) := by
    cases rest with
    | nil => rfl
    | cons c r =>
      obtain ⟨-, -, he, hE⟩ := hrest c rfl
      have hpower : ¬(c = 'e' ∨ c = 'E') := by
        rintro (h | h)
        · exact he h
        · exact hE h
      unfold exponent?
      exact if_neg hpower
  rw [number?, whole?_toDigits n hrest]
  simp only [Option.bind_eq_bind, Option.bind_some, hfraction, hexponent]
  rfl

/-! ## Scanning -/

theorem scan?_blank {c : Char} (h : isBlank c = true) (cs : List Char) : scan? (c :: cs) = scan? cs := by
  rw [scan?, if_pos h]

theorem scan?_token {c : Char} {cs rest : List Char} {t : Token} (hblank : isBlank c = false)
    (h : token? c cs = some (t, rest)) : scan? (c :: cs) = (scan? rest).map (t :: ·) := by
  rw [scan?, hblank]
  simp only [Bool.false_eq_true, if_false]
  split
  · next hnone =>
    rw [h] at hnone
    cases hnone
  · next t' rest' hsome =>
    rw [h] at hsome
    cases hsome
    rfl

theorem scan?_newLine (n : Nat) (cs : List Char) : scan? (newLine n ++ cs) = scan? cs := by
  have hblanks : ∀ k, scan? (List.replicate k ' ' ++ cs) = scan? cs := by
    intro k
    induction k with
    | zero => rfl
    | succ k ih => exact (scan?_blank rfl _).trans ih
  exact (scan?_blank rfl _).trans (hblanks (2 * n))

theorem scan?_literal (s : String) (rest : List Char) :
    scan? (literal (some s) ++ rest) = (scan? rest).map (.string (some s) :: ·) := by
  have hquoted : literal (some s) ++ rest = '"' :: (s.toList.flatMap escaped ++ '"' :: rest) := by
    simp [literal, quoted]
  rw [hquoted]
  exact scan?_token rfl (token?_quoted s rest)

theorem token?_digit {c : Char} (h : c.isDigit = true) (cs : List Char) :
    token? c cs = (number? false (c :: cs)).map fun x => (.number x.1, x.2) := by
  rw [token?]
  all_goals
    rintro rfl
    cases h

theorem scan?_number (n : Nat) {rest : List Char} (hrest : EndsNumber rest) :
    scan? ((Number.ofNat n).chars ++ rest) = (scan? rest).map (.number (Number.ofNat n) :: ·) := by
  have hnumber := number?_toDigits n hrest
  have hchars : (Number.ofNat n).chars = Nat.toDigits 10 n := by
    simp [Number.chars, Number.ofNat]
  rw [hchars]
  cases hcons : Nat.toDigits 10 n with
  | nil => exact absurd hcons Nat.toDigits_ne_nil
  | cons c r =>
    have hmem : c ∈ Nat.toDigits 10 n := hcons ▸ List.mem_cons_self ..
    have hc : c.isDigit = true := Nat.isDigit_of_mem_toDigits (by decide) (by decide) hmem
    have hblank : isBlank c = false := by
      simp only [isBlank, Bool.or_eq_false_iff, beq_eq_false_iff_ne]
      refine ⟨⟨⟨?_, ?_⟩, ?_⟩, ?_⟩
      all_goals
        rintro rfl
        cases hc
    rw [hcons, List.cons_append] at hnumber
    rw [List.cons_append]
    refine scan?_token hblank ?_
    rw [token?_digit hc, hnumber]
    rfl

end Json

end SwapRouting
