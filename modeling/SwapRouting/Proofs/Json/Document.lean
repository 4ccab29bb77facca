import SwapRouting.Json.Document
import SwapRouting.Proofs.Json.Token

/-! Documents that are written and read back.

A printed document is scanned as its own tokens, whatever lies behind it, and the reader turns the tokens
of a value into that value, whatever is still open around it. So every document is read back as it was
written, as long as its numbers are written plainly and its literals stand for texts. -/
namespace SwapRouting.Json
set_option autoImplicit false

/-! ## Tokens of a document -/

mutual

def Value.tokens : Value → List Token
  | .null => [.null]
  | .bool b => [.bool b]
  | .number n => [.number n]
  | .string s => [.string s]
  | .array items => .openBracket :: tokensOfItems items ++ [.closeBracket]
  | .object fields => .openBrace :: tokensOfFields fields ++ [.closeBrace]

def tokensOfItems : List Value → List Token
  | [] => []
  | [v] => v.tokens
  | v :: r => v.tokens ++ .comma :: tokensOfItems r

def tokensOfFields : List (Literal × Value) → List Token
  | [] => []
  | [(k, v)] => .string k :: .colon :: v.tokens
  | (k, v) :: r => .string k :: .colon :: v.tokens ++ .comma :: tokensOfFields r

end

mutual

/-- Whether every number of a document is a natural number as it is written, and every literal stands
for a text. -/
def Value.Written : Value → Prop
  | .null => True
  | .bool _ => True
  | .number m => ∃ n, m = Number.ofNat n
  | .string s => ∃ t, s = some t
  | .array items => WrittenItems items
  | .object fields => WrittenFields fields

def WrittenItems : List Value → Prop
  | [] => True
  | v :: r => v.Written ∧ WrittenItems r

def WrittenFields : List (Literal × Value) → Prop
  | [] => True
  | (k, v) :: r => (∃ t, k = some t) ∧ v.Written ∧ WrittenFields r

end

/-! ## Scanning what was printed -/

/-- Whether a text in front of another one is scanned as these tokens. -/
def Scans (cs : List Char) (ts : List Token) (rest : List Char) : Prop :=
  scan? (cs ++ rest) = (scan? rest).map (ts ++ ·)

section
variable {cs cs' rest : List Char} {ts ts' : List Token}

theorem Scans.append (h : Scans cs ts (cs' ++ rest)) (h' : Scans cs' ts' rest) :
    Scans (cs ++ cs') (ts ++ ts') rest := by
  rw [Scans, List.append_assoc, h, h', Option.map_map]
  congr 1
  funext x
  exact (List.append_assoc ..).symm

theorem Scans.behindMark {c : Char} {t : Token} (hblank : isBlank c = false)
    (ht : ∀ x, token? c x = some (t, x)) (h : Scans cs ts rest) :
    Scans (c :: cs) (t :: ts) rest := by
  rw [Scans, List.cons_append, scan?_token hblank (ht _), h, Option.map_map]
  rfl

theorem Scans.behindLine (h : Scans cs ts rest) (n : Nat) : Scans (newLine n ++ cs) ts rest := by
  rw [Scans, List.append_assoc, scan?_newLine]
  exact h

theorem Scans.beforeLine {n : Nat} (h : Scans cs ts (newLine n ++ rest)) :
    Scans (cs ++ newLine n) ts rest := by
  rw [Scans, List.append_assoc, h, scan?_newLine]

theorem scans_nil (rest : List Char) : Scans [] [] rest := Option.map_id'.symm

theorem Scans.inBrackets (h : Scans cs ts (']' :: rest)) :
    Scans ('[' :: cs ++ [']']) (.openBracket :: ts ++ [.closeBracket]) rest := by
  have hend : Scans [']'] [.closeBracket] rest := (scans_nil rest).behindMark rfl fun _ => rfl
  exact (Scans.append h hend).behindMark rfl fun _ => rfl

theorem Scans.inBraces (h : Scans cs ts ('\x7d' :: rest)) :
    Scans ('\x7b' :: cs ++ ['\x7d']) (.openBrace :: ts ++ [.closeBrace]) rest := by
  have hend : Scans ['\x7d'] [.closeBrace] rest := (scans_nil rest).behindMark rfl fun _ => rfl
  exact (Scans.append h hend).behindMark rfl fun _ => rfl

theorem Scans.behindName (h : Scans cs ts rest) (k : String) :
    Scans (literal (some k) ++ ':' :: cs) (.string (some k) :: .colon :: ts) rest := by
  have hname : Scans (literal (some k)) [.string (some k)] (':' :: cs ++ rest) := scan?_literal k _
  exact hname.append (h.behindMark rfl fun _ => rfl)

theorem Scans.behindKey (h : Scans cs ts rest) (n : Nat) (k : String) :
    Scans (newLine n ++ literal (some k) ++ ':' :: ' ' :: cs) (.string (some k) :: .colon :: ts)
      rest := by
  have hvalue : Scans (' ' :: cs) ts rest := (scan?_blank rfl _).trans h
  rw [List.append_assoc]
  exact (hvalue.behindName k).behindLine n


end

theorem endsNumber_mark {c : Char} (h : c ∈ ['\n', ',', ']', '\x7d']) (rest : List Char) :
    EndsNumber (c :: rest) := by
  intro d hd
  cases hd
  simp only [List.mem_cons, List.not_mem_nil, or_false] at h
  rcases h with rfl | rfl | rfl | rfl
  all_goals decide

mutual

theorem scans_prettyChars (v : Value) (n : Nat) {rest : List Char} (h : v.Written)
    (hrest : EndsNumber rest) : Scans (v.prettyChars n) v.tokens rest := by
  match v with
  | .null => exact scan?_token rfl rfl
  | .bool true => exact scan?_token rfl rfl
  | .bool false => exact scan?_token rfl rfl
  | .number m =>
    obtain ⟨k, rfl⟩ := h
    exact scan?_number k hrest
  | .string s =>
    obtain ⟨t, rfl⟩ := h
    exact scan?_literal t rest
  | .array [] => exact (scans_nil _).inBrackets
  | .array (w :: r) =>
    have hitems : Scans (prettyItems (n + 1) (w :: r)) (tokensOfItems (w :: r))
        (newLine n ++ ']' :: rest) :=
      scans_prettyItems (w :: r) (n + 1) h (endsNumber_mark (by simp) _)
    rw [Value.prettyChars, Value.tokens]
    · exact hitems.beforeLine.inBrackets
    · exact nofun
  | .object [] => exact (scans_nil _).inBraces
  | .object (f :: r) =>
    have hfields : Scans (prettyFields (n + 1) (f :: r)) (tokensOfFields (f :: r))
        (newLine n ++ '\x7d' :: rest) :=
      scans_prettyFields (f :: r) (n + 1) h (endsNumber_mark (by simp) _)
    rw [Value.prettyChars, Value.tokens]
    · exact hfields.beforeLine.inBraces
    · exact nofun

theorem scans_prettyItems (items : List Value) (n : Nat) {rest : List Char} (h : WrittenItems items)
    (hrest : EndsNumber rest) : Scans (prettyItems n items) (tokensOfItems items) rest := by
  match items with
  | [] => exact scans_nil rest
  | [v] => exact (scans_prettyChars v n h.1 hrest).behindLine n
  | v :: w :: r =>
    have hv : Scans (v.prettyChars n) v.tokens (',' :: prettyItems n (w :: r) ++ rest) :=
      scans_prettyChars v n h.1 (endsNumber_mark (by simp) _)
    have hothers : Scans (prettyItems n (w :: r)) (tokensOfItems (w :: r)) rest :=
      scans_prettyItems (w :: r) n h.2 hrest
    exact (hv.behindLine n).append (hothers.behindMark rfl fun _ => rfl)

theorem scans_prettyFields (fields : List (Literal × Value)) (n : Nat) {rest : List Char}
    (h : WrittenFields fields) (hrest : EndsNumber rest) :
    Scans (prettyFields n fields) (tokensOfFields fields) rest := by
  match fields with
  | [] => exact scans_nil rest
  | [(k, v)] =>
    obtain ⟨⟨t, rfl⟩, hv, -⟩ := h
    exact (scans_prettyChars v n hv hrest).behindKey n t
  | (k, v) :: f :: r =>
    obtain ⟨⟨t, rfl⟩, hv, hr⟩ := h
    have hvalue : Scans (v.prettyChars n) v.tokens (',' :: prettyFields n (f :: r) ++ rest) :=
      scans_prettyChars v n hv (endsNumber_mark (by simp) _)
    have hothers : Scans (prettyFields n (f :: r)) (tokensOfFields (f :: r)) rest :=
      scans_prettyFields (f :: r) n hr hrest
    exact (hvalue.behindKey n t).append (hothers.behindMark rfl fun _ => rfl)

end

mutual

theorem scans_compactChars (v : Value) {rest : List Char} (h : v.Written) (hrest : EndsNumber rest) :
    Scans v.compactChars v.tokens rest := by
  match v with
  | .null => exact scan?_token rfl rfl
  | .bool true => exact scan?_token rfl rfl
  | .bool false => exact scan?_token rfl rfl
  | .number m =>
    obtain ⟨k, rfl⟩ := h
    exact scan?_number k hrest
  | .string s =>
    obtain ⟨t, rfl⟩ := h
    exact scan?_literal t rest
  | .array items =>
    have hitems : Scans (compactItems items) (tokensOfItems items) (']' :: rest) :=
      scans_compactItems items h (endsNumber_mark (by simp) _)
    exact hitems.inBrackets
  | .object fields =>
    have hfields : Scans (compactFields fields) (tokensOfFields fields) ('\x7d' :: rest) :=
      scans_compactFields fields h (endsNumber_mark (by simp) _)
    exact hfields.inBraces

theorem scans_compactItems (items : List Value) {rest : List Char} (h : WrittenItems items)
    (hrest : EndsNumber rest) : Scans (compactItems items) (tokensOfItems items) rest := by
  match items with
  | [] => exact scans_nil rest
  | [v] => exact scans_compactChars v h.1 hrest
  | v :: w :: r =>
    have hv : Scans v.compactChars v.tokens (',' :: compactItems (w :: r) ++ rest) :=
      scans_compactChars v h.1 (endsNumber_mark (by simp) _)
    have hothers : Scans (compactItems (w :: r)) (tokensOfItems (w :: r)) rest :=
      scans_compactItems (w :: r) h.2 hrest
    exact hv.append (hothers.behindMark rfl fun _ => rfl)

theorem scans_compactFields (fields : List (Literal × Value)) {rest : List Char}
    (h : WrittenFields fields) (hrest : EndsNumber rest) :
    Scans (compactFields fields) (tokensOfFields fields) rest := by
  match fields with
  | [] => exact scans_nil rest
  | [(k, v)] =>
    obtain ⟨⟨t, rfl⟩, hv, -⟩ := h
    exact (scans_compactChars v hv hrest).behindName t
  | (k, v) :: f :: r =>
    obtain ⟨⟨t, rfl⟩, hv, hr⟩ := h
    have hvalue : Scans v.compactChars v.tokens (',' :: compactFields (f :: r) ++ rest) :=
      scans_compactChars v hv (endsNumber_mark (by simp) _)
    have hothers : Scans (compactFields (f :: r)) (tokensOfFields (f :: r)) rest :=
      scans_compactFields (f :: r) hr hrest
    exact (hvalue.behindName t).append (hothers.behindMark rfl fun _ => rfl)

end

/-! ## Reading the tokens -/

namespace Reading

theorem run_firstItem (v : Value) (r : List Value) (stack : List Open) (ts : List Token) :
    run ⟨stack, .firstItem⟩ (tokensOfItems (v :: r) ++ ts)
      = run ⟨.items [] :: stack, .value⟩ (tokensOfItems (v :: r) ++ ts) := by
  -- no value starts with the end of an array
  cases r with
  | nil => cases v with
    | _ => rfl
  | cons w r => cases v with
    | _ => rfl

theorem run_firstKey (f : Literal × Value) (r : List (Literal × Value)) (stack : List Open)
    (ts : List Token) :
    run ⟨stack, .firstKey⟩ (tokensOfFields (f :: r) ++ ts)
      = run ⟨stack, .key []⟩ (tokensOfFields (f :: r) ++ ts) := by
  cases r with
  | nil => rfl
  | cons g r => rfl

mutual

theorem run_tokens (v : Value) (stack : List Open) (ts : List Token) :
    run ⟨stack, .value⟩ (v.tokens ++ ts) = run ⟨stack, .done v⟩ ts := by
  match v with
  | .null => rfl
  | .bool b => rfl
  | .number m => rfl
  | .string s => rfl
  | .array [] => rfl
  | .array (w :: r) =>
    have hitems := run_items (w :: r) [] stack ts nofun
    rw [Value.tokens, List.append_assoc]
    exact (run_firstItem w r stack _).trans hitems
  | .object [] => rfl
  | .object (f :: r) =>
    have hfields := run_fields (f :: r) [] stack ts nofun
    rw [Value.tokens, List.append_assoc]
    exact (run_firstKey f r stack _).trans hfields

theorem run_items (items : List Value) (before : List Value) (stack : List Open) (ts : List Token)
    (hne : items ≠ []) :
    run ⟨.items before :: stack, .value⟩ (tokensOfItems items ++ .closeBracket :: ts)
      = run ⟨stack, .done (.array (before.reverse ++ items))⟩ ts := by
  match items with
  | [v] =>
    rw [tokensOfItems, run_tokens, ← List.reverse_cons]
    rfl
  | v :: w :: r =>
    have hothers := run_items (w :: r) (v :: before) stack ts nofun
    rw [List.reverse_cons, List.append_assoc] at hothers
    rw [tokensOfItems, List.append_assoc, run_tokens]
    · exact hothers
    · exact nofun

theorem run_fields (fields : List (Literal × Value)) (before : List (Literal × Value))
    (stack : List Open) (ts : List Token) (hne : fields ≠ []) :
    run ⟨stack, .key before⟩ (tokensOfFields fields ++ .closeBrace :: ts)
      = run ⟨stack, .done (.object (before.reverse ++ fields))⟩ ts := by
  match fields with
  | [(k, v)] =>
    have hvalue := run_tokens v (.field before k :: stack) (.closeBrace :: ts)
    rw [← List.reverse_cons]
    exact hvalue
  | (k, v) :: f :: r =>
    have hothers := run_fields (f :: r) ((k, v) :: before) stack ts nofun
    rw [List.reverse_cons, List.append_assoc] at hothers
    have hvalue := run_tokens v (.field before k :: stack)
      (.comma :: tokensOfFields (f :: r) ++ .closeBrace :: ts)
    rw [tokensOfFields, List.append_assoc]
    · exact hvalue.trans hothers
    · exact nofun

end

end Reading

/-- A text that is scanned as the tokens of a document is read as that document. -/
theorem parse?_of_scans {cs : List Char} {v : Value} (h : Scans cs v.tokens []) :
    parse? (String.ofList cs) = some v := by
  have hscan : scan? cs = some v.tokens := by simpa [Scans, scan?] using h
  have hrun : Reading.run ⟨[], .value⟩ v.tokens = some ⟨[], .done v⟩ := by
    have hvalue := Reading.run_tokens v [] []
    rw [List.append_nil] at hvalue
    exact hvalue
  rw [parse?, String.toList_ofList, hscan]
  simp only [Option.bind_eq_bind, Option.bind_some, Reading.start, hrun]
  rfl

/-- What is written is read back. -/
theorem parse?_pretty {v : Value} (h : v.Written) : parse? v.pretty = some v :=
  parse?_of_scans (scans_prettyChars v 0 h nofun)

/-- What is written without blanks is read back. -/
theorem parse?_compact {v : Value} (h : v.Written) : parse? v.compact = some v :=
  parse?_of_scans (scans_compactChars v h nofun)

end SwapRouting.Json
