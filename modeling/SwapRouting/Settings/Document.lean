import SwapRouting.Format.Json
import SwapRouting.Format.Notation
import SwapRouting.Format.Yaml
import SwapRouting.Settings.Value
import SwapRouting.Toml.Document

/-! Settings out of documents. A document is a table whose own keys are paths. The extension of a file tells
the notation: of several fields of an object with one name the last stays, and an indented document names
each key of a mapping once. -/
namespace SwapRouting.Setting
set_option autoImplicit false

/-! ## Documents -/

/-- A number as a whole number of 64 bits, or else in floating point. -/
def ofNumber (n : Json.Number) : Setting :=
  let approximate := real n.negative n.double?
  match n.magnitude? with
  | some m =>
    if n.negative then
      if 0 < m ∧ m ≤ 9223372036854775808 then whole (-(m : Int)) else approximate
    else if m < 9223372036854775808 then whole m
    else approximate
  | none => approximate

mutual

/-- The settings in a document; of several fields with one name the last stays. -/
def ofJson : Json.Value → Setting
  | .null => nothing
  | .bool b => flag b
  | .number n => ofNumber n
  | .string s => text (s.getD "")
  | .array items => list (ofItems items)
  | .object fields => table (ofFields [] fields)

def ofItems : List Json.Value → List Setting
  | [] => []
  | v :: r => ofJson v :: ofItems r

def ofFields (before : List (String × Setting)) :
    List (Json.Literal × Json.Value) → List (String × Setting)
  | [] => before
  | (k, v) :: r => ofFields (store (k.getD "") (ofJson v) before) r

end

/-! ## Indented documents -/

/-- A whole number: in base 16 or 8 behind a mark, or else in base ten, where one plus sign more may
stand in front. -/
def whole? : List Char → Option Int
  | '0' :: 'x' :: r => int64? 16 r
  | '0' :: 'o' :: r => int64? 8 r
  | cs => int64? 10 (withoutPlus cs)

/-- Words for numbers that settings cannot hold. -/
def isBoundless (s : String) : Bool :=
  [".inf", ".Inf", ".INF", "+.inf", "+.Inf", "+.INF", "-.inf", "-.Inf", "-.INF", ".nan", ".NaN",
    ".NAN"].contains s

/-- The setting that a scalar without quotes stands for. -/
def ofPlain? (s : String) : Option Setting :=
  if ["", "~", "null"].contains s then some nothing
  else if s = "true" then some (flag true)
  else if s = "false" then some (flag false)
  else if isBoundless s then none
  else
    match whole? s.toList, Double.read? s.toList with
    | some n, _ => some (whole n)
    | none, some (isNegative, size) => some (real isNegative size)
    | none, none => some (text s)

/-- The setting that a scalar without quotes stands for behind a tag; nothing where the tag does not fit
it. -/
def ofTagged? (tag s : String) : Option Setting :=
  if tag = Yaml.flagTag then
    some (if s = "true" then flag true else if s = "false" then flag false else nothing)
  else if tag = Yaml.numberTag then some (((int64? 10 s.toList).map whole).getD nothing)
  else if tag = Yaml.realTag then
    if isBoundless s then none
    else some (((Double.read? s.toList).map fun x => real x.1 x.2).getD nothing)
  else if tag = Yaml.nullTag then some nothing
  else some (text s)

/-- The key that a node stands for. Numbers in floating point stay as they are written. -/
def keyOf? : Yaml.Node → Option String
  | .scalar s .plain =>
    match ofPlain? s with
    | some nothing => none
    | some (real _ _) => some s
    | some v => v.text?
    | none => some s
  | .tagged tag (.scalar s .plain) => (ofTagged? tag s).bind text?
  | v => v.text?

mutual

/-- The settings in an indented document. A mapping names each of its keys once. -/
def ofYaml? : Yaml.Node → Option Setting
  | .scalar s style => if style = .plain then ofPlain? s else some (text s)
  | .sequence items => (ofNodes? items).map list
  | .mapping es => (ofEntries? [] es).map table
  | .tagged tag (.scalar s .plain) => ofTagged? tag s
  | .tagged _ v => ofYaml? v
  | .anchored _ v => ofYaml? v
  | .alias _ => none

def ofNodes? : List Yaml.Node → Option (List Setting)
  | [] => some []
  | v :: r =>
    match ofYaml? v, ofNodes? r with
    | some v, some vs => some (v :: vs)
    | _, _ => none

def ofEntries? (before : List (String × Setting)) :
    List (Yaml.Node × Yaml.Node) → Option (List (String × Setting))
  | [] => some before.reverse
  | (k, v) :: r =>
    match keyOf? k, ofYaml? v with
    | some k, some v => if before.any (·.1 == k) then none else ofEntries? ((k, v) :: before) r
    | _, _ => none

end

/-! ## Documents in tables -/

mutual

def ofToml : Toml.Value → Setting
  | .text s => text s
  | .whole n => whole n
  | .real isNegative size => real isNegative size
  | .flag b => flag b
  | .array vs => list (ofTomlItems vs)
  | .table es => table (ofTomlEntries es)

def ofTomlItems : List Toml.Value → List Setting
  | [] => []
  | v :: r => ofToml v :: ofTomlItems r

def ofTomlEntries : List (String × Toml.Value) → List (String × Setting)
  | [] => []
  | (k, v) :: r => (k, ofToml v) :: ofTomlEntries r

end

/-! ## Texts -/

/-- The value of a document in the notation that the extension of its file tells. An indented document
without any content is an empty table. -/
def ofText? (file s : String) : Option Setting :=
  match (fileExtension? file).map String.ofList with
  | some "json" =>
    (Json.parse? s).bind fun v => if Format.Source.isSound 0 v then some (ofJson v) else none
  | some "yaml" | some "yml" =>
    match Yaml.marks? .lenient s with
    | some [] => some (table [])
    | some ms => (Yaml.ofMarks? ms).bind ofYaml?
    | none => none
  | some "toml" => (Toml.parse? s).map fun es => table (ofTomlEntries es)
  | _ => none

/-- The entries of the table in a file. -/
def entriesOf? (file s : String) : Option (List (String × Setting)) := do
  match ← ofText? file (String.ofList (Yaml.unmarked s.toList)) with
  | table es => some es
  | _ => none

/-- The settings with all entries put at the paths that their keys tell. -/
def putAll? (root : Setting) (es : List (String × Setting)) : Option Setting :=
  es.foldlM (fun root e => put? e.2 root (path e.1)) root

end SwapRouting.Setting
