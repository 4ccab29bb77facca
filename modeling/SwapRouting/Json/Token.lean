import SwapRouting.Json.Value

/-! Tokens of a document: brackets, marks, words, numbers and string literals.

`scan?` splits a text into tokens and skips the blanks between them. It knows nothing of nesting;
that is left to the reader of the tokens. String literals are decoded in two steps: `units?` resolves
the escapes to characters and 16-bit units, and `joined?` pairs the surrogates among the units. -/
namespace SwapRouting.Json
set_option autoImplicit false

inductive Token where
  | openBrace
  | closeBrace
  | openBracket
  | closeBracket
  | comma
  | colon
  | null
  | bool (b : Bool)
  | number (n : Number)
  | string (s : Literal)
deriving DecidableEq, Repr

/-! ## String literals -/

/-- A piece of a string literal: a character, or a 16-bit unit given by an escape. -/
inductive Piece where
  | char (c : Char)
  | unit (n : Nat)
deriving DecidableEq, Repr

/-- The character an escape of one letter stands for. -/
def shortEscape? (c : Char) : Option Char :=
  match c with
  | '"' => some '"'
  | '\\' => some '\\'
  | '/' => some '/'
  | 'b' => some '\x08'
  | 'f' => some '\x0c'
  | 'n' => some '\n'
  | 'r' => some '\r'
  | 't' => some '\t'
  | _ => none

/-- The pieces of a string literal up to its closing quote, and the text behind it. -/
def units? : List Char → Option (List Piece × List Char)
  | [] => none
  | '"' :: r => some ([], r)
  | '\\' :: 'u' :: a :: b :: c :: d :: r => do
    let a ← hexValue? a
    let b ← hexValue? b
    let c ← hexValue? c
    let d ← hexValue? d
    let (ps, rest) ← units? r
    some (.unit (((a * 16 + b) * 16 + c) * 16 + d) :: ps, rest)
  | '\\' :: c :: r => do
    let e ← shortEscape? c
    let (ps, rest) ← units? r
    some (.char e :: ps, rest)
  | c :: r =>
    if c.toNat < 32 ∨ c = '\\' then none
    else (units? r).map fun (ps, rest) => (.char c :: ps, rest)

/-- The characters of the pieces; none where a surrogate unit has no partner. -/
def joined? : List Piece → Option (List Char)
  | [] => some []
  | .char c :: r => (joined? r).map (c :: ·)
  | .unit hi :: .unit lo :: r =>
    if 0xD800 ≤ hi ∧ hi ≤ 0xDBFF then
      if 0xDC00 ≤ lo ∧ lo ≤ 0xDFFF then
        (joined? r).map (Char.ofNat (0x10000 + (hi - 0xD800) * 0x400 + (lo - 0xDC00)) :: ·)
      else none
    else if 0xDC00 ≤ hi ∧ hi ≤ 0xDFFF then none
    else (joined? (.unit lo :: r)).map (Char.ofNat hi :: ·)
  | .unit n :: r =>
    if 0xD800 ≤ n ∧ n ≤ 0xDFFF then none else (joined? r).map (Char.ofNat n :: ·)

/-! ## Numbers -/

/-- The digits at the front of a text, and the rest. -/
def digitsOf (cs : List Char) : List Char × List Char :=
  (cs.takeWhile Char.isDigit, cs.dropWhile Char.isDigit)

/-- The digits before the point: a zero alone, or digits that do not start with one. -/
def whole? : List Char → Option (List Char × List Char)
  | '0' :: r => some (['0'], r)
  | cs => if (digitsOf cs).1.isEmpty then none else some (digitsOf cs)

/-- The digits behind a point, of which there is at least one; nothing without a point. -/
def fraction? : List Char → Option (List Char × List Char)
  | '.' :: r => if (digitsOf r).1.isEmpty then none else some (digitsOf r)
  | cs => some ([], cs)

/-- The sign and digits of a written power of ten. -/
def power? (negative : Bool) (cs : List Char) : Option (Option (Bool × List Char) × List Char) :=
  if (digitsOf cs).1.isEmpty then none else some (some (negative, (digitsOf cs).1), (digitsOf cs).2)

/-- A power of ten behind a number, if one is written. -/
def exponent? : List Char → Option (Option (Bool × List Char) × List Char)
  | c :: r =>
    if c = 'e' ∨ c = 'E' then
      match r with
      | '-' :: r' => power? true r'
      | '+' :: r' => power? false r'
      | _ => power? false r
    else some (none, c :: r)
  | [] => some (none, [])

/-- A number without its sign. -/
def number? (negative : Bool) (cs : List Char) : Option (Number × List Char) := do
  let (w, r) ← whole? cs
  let (f, r) ← fraction? r
  let (e, r) ← exponent? r
  some (⟨negative, w, f, e⟩, r)

/-! ## Tokens -/

def isBlank (c : Char) : Bool := c == ' ' || c == '\t' || c == '\n' || c == '\r'

/-- What follows `word` in a text that starts with it. -/
def after? (word : List Char) (cs : List Char) : Option (List Char) :=
  if word.isPrefixOf cs then some (cs.drop word.length) else none

/-- The token that starts with the character `c`, and the text behind it. -/
def token? (c : Char) (cs : List Char) : Option (Token × List Char) :=
  match c with
  | '{' => some (.openBrace, cs)
  | '}' => some (.closeBrace, cs)
  | '[' => some (.openBracket, cs)
  | ']' => some (.closeBracket, cs)
  | ',' => some (.comma, cs)
  | ':' => some (.colon, cs)
  | 'n' => (after? ['u', 'l', 'l'] cs).map fun r => (.null, r)
  | 't' => (after? ['r', 'u', 'e'] cs).map fun r => (.bool true, r)
  | 'f' => (after? ['a', 'l', 's', 'e'] cs).map fun r => (.bool false, r)
  | '"' => (units? cs).map fun (ps, r) => (.string ((joined? ps).map String.ofList), r)
  | '-' => (number? true cs).map fun (n, r) => (.number n, r)
  | _ => (number? false (c :: cs)).map fun (n, r) => (.number n, r)

/-! ## Every token shortens the text -/

theorem units?_length {cs rest : List Char} {ps : List Piece} (h : units? cs = some (ps, rest)) :
    rest.length < cs.length := by
  fun_induction units? cs generalizing ps rest with
  | case1 => simp at h
  | case2 r => simp_all
  | case3 a b c d r ih =>
    simp only [Option.bind_eq_bind, Option.bind_eq_some_iff, Option.some.injEq, Prod.mk.injEq] at h
    obtain ⟨_, _, _, _, _, _, _, _, ⟨qs, q⟩, hq, _, rfl⟩ := h
    have hlt := ih hq
    simp only [List.length_cons]
    omega
  | case4 c r _ ih =>
    simp only [Option.bind_eq_bind, Option.bind_eq_some_iff, Option.some.injEq, Prod.mk.injEq] at h
    obtain ⟨_, _, ⟨qs, q⟩, hq, _, rfl⟩ := h
    have hlt := ih hq
    simp only [List.length_cons]
    omega
  | case5 => simp at h
  | case6 c r _ _ _ _ ih =>
    simp only [Option.map_eq_some_iff, Prod.mk.injEq] at h
    obtain ⟨⟨qs, q⟩, hq, _, rfl⟩ := h
    have hlt := ih hq
    simp only [List.length_cons]
    omega

theorem digitsOf_length (cs : List Char) : (digitsOf cs).2.length ≤ cs.length :=
  (List.dropWhile_suffix _).length_le

theorem digitsOf_length_lt {cs : List Char} (h : (digitsOf cs).1.isEmpty = false) :
    (digitsOf cs).2.length < cs.length := by
  have hsplit := congrArg List.length (List.takeWhile_append_dropWhile (p := Char.isDigit) (l := cs))
  rw [List.length_append] at hsplit
  have hpos : 0 < (cs.takeWhile Char.isDigit).length := by
    cases hd : cs.takeWhile Char.isDigit with
    | nil => simp [digitsOf, hd] at h
    | cons => simp
  simp only [digitsOf]
  omega

theorem whole?_length {cs w r : List Char} (h : whole? cs = some (w, r)) :
    r.length < cs.length := by
  unfold whole? at h
  split at h
  · simp only [Option.some.injEq, Prod.mk.injEq] at h
    simp [← h.2]
  · split at h
    · simp at h
    · next hd =>
      simp only [Option.some.injEq] at h
      have hl := @digitsOf_length_lt cs (by simpa using hd)
      rw [h] at hl
      exact hl

theorem fraction?_length {cs f r : List Char} (h : fraction? cs = some (f, r)) :
    r.length ≤ cs.length := by
  unfold fraction? at h
  split at h
  · next q =>
    split at h
    · simp at h
    · simp only [Option.some.injEq] at h
      have hl := digitsOf_length q
      rw [h] at hl
      exact Nat.le_succ_of_le hl
  · simp only [Option.some.injEq, Prod.mk.injEq] at h
    simp [h.2]

theorem power?_length {negative : Bool} {cs r : List Char} {e : Option (Bool × List Char)}
    (h : power? negative cs = some (e, r)) : r.length ≤ cs.length := by
  unfold power? at h
  split at h
  · simp at h
  · simp only [Option.some.injEq, Prod.mk.injEq] at h
    rw [← h.2]
    exact digitsOf_length cs

theorem exponent?_length {cs r : List Char} {e : Option (Bool × List Char)}
    (h : exponent? cs = some (e, r)) : r.length ≤ cs.length := by
  unfold exponent? at h
  split at h
  · split at h
    · split at h
      all_goals
        have hl := power?_length h
        simp only [List.length_cons] at *
        omega
    · simp only [Option.some.injEq, Prod.mk.injEq] at h
      simp [← h.2]
  · simp only [Option.some.injEq, Prod.mk.injEq] at h
    simp [← h.2]

theorem number?_length {negative : Bool} {cs r : List Char} {n : Number}
    (h : number? negative cs = some (n, r)) : r.length < cs.length := by
  simp only [number?, Option.bind_eq_bind, Option.bind_eq_some_iff, Option.some.injEq,
    Prod.mk.injEq] at h
  obtain ⟨⟨w, q⟩, hw, ⟨f, q'⟩, hf, ⟨e, q''⟩, he, _, rfl⟩ := h
  have h1 := whole?_length hw
  have h2 := fraction?_length hf
  have h3 := exponent?_length he
  exact Nat.lt_of_le_of_lt h3 (Nat.lt_of_le_of_lt h2 h1)

theorem after?_length {word cs r : List Char} (h : after? word cs = some r) :
    r.length ≤ cs.length := by
  unfold after? at h
  split at h
  · simp only [Option.some.injEq] at h
    simp [← h]
  · simp at h

theorem token?_length {c : Char} {cs rest : List Char} {t : Token}
    (h : token? c cs = some (t, rest)) : rest.length ≤ cs.length := by
  unfold token? at h
  split at h
  all_goals
    simp only [Option.some.injEq, Prod.mk.injEq, Option.map_eq_some_iff] at h
  all_goals try exact Nat.le_of_eq (congrArg List.length h.2.symm)
  · obtain ⟨r, hr, _, rfl⟩ := h
    exact after?_length hr
  · obtain ⟨r, hr, _, rfl⟩ := h
    exact after?_length hr
  · obtain ⟨r, hr, _, rfl⟩ := h
    exact after?_length hr
  · obtain ⟨⟨ps, r⟩, hr, _, rfl⟩ := h
    exact Nat.le_of_lt (units?_length hr)
  · obtain ⟨⟨n, r⟩, hr, _, rfl⟩ := h
    exact Nat.le_of_lt (number?_length hr)
  · obtain ⟨⟨n, r⟩, hr, _, rfl⟩ := h
    exact Nat.le_of_lt_succ (number?_length hr)

/-- The tokens of a text. -/
def scan? (cs : List Char) : Option (List Token) :=
  match cs with
  | [] => some []
  | c :: r =>
    if isBlank c then scan? r
    else
      match _h : token? c r with
      | none => none
      | some (t, rest) => (scan? rest).map (t :: ·)
termination_by cs.length
decreasing_by
  · simp
  · have hlt := token?_length _h
    simp only [List.length_cons]
    omega

end SwapRouting.Json
