import SwapRouting.Json.Token

/-! Reading a document from its tokens.

The reader goes over the tokens once, with a stack of the arrays and objects that are still open and
a `Place` that says what may come next. `parse?` reads a whole text; blanks around the document are
skipped and anything else behind it is refused. -/
namespace SwapRouting.Json
set_option autoImplicit false

/-- A container whose current member is being read, with the members before it, last one first. -/
inductive Open where
  | items (before : List Value)
  | field (before : List (Literal × Value)) (key : Literal)

/-- What the next token may be. -/
inductive Place where
  /-- A value is due. -/
  | value
  /-- An array has just been opened: a value or its end. -/
  | firstItem
  /-- An object has just been opened: a key or its end. -/
  | firstKey
  /-- A comma inside an object was read: a key is due. -/
  | key (before : List (Literal × Value))
  /-- A key was read: its colon is due. -/
  | colon (before : List (Literal × Value)) (key : Literal)
  /-- A value is complete. -/
  | done (v : Value)

/-- A reader between two tokens. -/
structure Reading where
  stack : List Open
  place : Place

namespace Reading

def start : Reading where
  stack := []
  place := .value

/-- A value starts with this token. -/
def begin (stack : List Open) : Token → Option Reading
  | .openBrace => some ⟨stack, .firstKey⟩
  | .openBracket => some ⟨stack, .firstItem⟩
  | .null => some ⟨stack, .done .null⟩
  | .bool b => some ⟨stack, .done (.bool b)⟩
  | .number n => some ⟨stack, .done (.number n)⟩
  | .string s => some ⟨stack, .done (.string s)⟩
  | _ => none

/-- The innermost container goes on or ends after its member `v`. -/
def follow (v : Value) : List Open → Token → Option Reading
  | .items before :: stack, .comma => some ⟨.items (v :: before) :: stack, .value⟩
  | .items before :: stack, .closeBracket => some ⟨stack, .done (.array (v :: before).reverse)⟩
  | .field before key :: stack, .comma => some ⟨stack, .key ((key, v) :: before)⟩
  | .field before key :: stack, .closeBrace =>
    some ⟨stack, .done (.object ((key, v) :: before).reverse)⟩
  | _, _ => none

def step (r : Reading) (t : Token) : Option Reading :=
  match r.place, t with
  | .value, t => begin r.stack t
  | .firstItem, .closeBracket => some ⟨r.stack, .done (.array [])⟩
  | .firstItem, t => begin (.items [] :: r.stack) t
  | .firstKey, .closeBrace => some ⟨r.stack, .done (.object [])⟩
  | .firstKey, .string s => some ⟨r.stack, .colon [] s⟩
  | .key before, .string s => some ⟨r.stack, .colon before s⟩
  | .colon before key, .colon => some ⟨.field before key :: r.stack, .value⟩
  | .done v, t => follow v r.stack t
  | _, _ => none

/-- The reader after a run of tokens. -/
def run (r : Reading) : List Token → Option Reading
  | [] => some r
  | t :: ts => (r.step t).bind fun r' => run r' ts

/-- The document, once it is complete. -/
def result? (r : Reading) : Option Value :=
  match r.stack, r.place with
  | [], .done v => some v
  | _, _ => none

end Reading

/-- The document of a text. -/
def parse? (s : String) : Option Value := do
  let ts ← scan? s.toList
  let r ← Reading.start.run ts
  r.result?

/-! ## Nesting and soundness -/

mutual

/-- How many containers lie inside one another. -/
def Value.depth : Value → Nat
  | .array items => depthOfItems items + 1
  | .object fields => depthOfFields fields + 1
  | _ => 0

def depthOfItems : List Value → Nat
  | [] => 0
  | v :: r => max v.depth (depthOfItems r)

def depthOfFields : List (Literal × Value) → Nat
  | [] => 0
  | (_, v) :: r => max v.depth (depthOfFields r)

end

mutual

/-- Every string literal stands for a text, and every number fits floating point. -/
def Value.sound : Value → Bool
  | .string s => s.isSome
  | .number n => n.double?.isSome
  | .array items => soundItems items
  | .object fields => soundFields fields
  | _ => true

def soundItems : List Value → Bool
  | [] => true
  | v :: r => v.sound && soundItems r

def soundFields : List (Literal × Value) → Bool
  | [] => true
  | (k, v) :: r => k.isSome && v.sound && soundFields r

end

end SwapRouting.Json
