import SwapRouting.Yaml.Token

/-! Reading an indented document from its marks. Every block and every pair of brackets is closed by a
mark of its own, apart from items at the column of the key that they belong to, which end where no dash
follows. Names are looked up last: those of tags while the marks are gone over, and those of nodes in the
order in which these are read. -/
namespace SwapRouting.Yaml
set_option autoImplicit false

inductive Node where
  | scalar (text : String) (style : Style)
  | sequence (items : List Node)
  | mapping (entries : List (Node × Node))
  | tagged (tag : String) (v : Node)
  /-- A node with a name. -/
  | anchored (name : String) (v : Node)
  /-- The node with a name, before it is looked up. -/
  | alias (name : String)
deriving Inhabited

/-- What stands where nothing is written. -/
def Node.blank : Node := .scalar "" .plain

/-- Whether an item or an entry in brackets ends here. -/
def endsFlow : List Mark → Bool
  | .comma :: _ => true
  | .closeItems :: _ => true
  | .closeEntries :: _ => true
  | _ => false

/-- Whether a key or a value of a block ends here. -/
def endsEntry : List Mark → Bool
  | .key :: _ => true
  | .value :: _ => true
  | .closeBlock :: _ => true
  | _ => false

/-- Whether an item of a block ends here. -/
def endsItem : List Mark → Bool
  | .dash :: _ => true
  | .closeBlock :: _ => true
  | _ => false

/-- Where a value stands: inside brackets, in a block, or in a block behind a key, where items need no
block of their own. -/
inductive Position where
  | flow
  | block
  | entry
deriving DecidableEq, Repr

/-- The name and the tag in front of a node, each of which may be missing. -/
structure Properties where
  anchor : Option String
  tag : Option String
deriving DecidableEq, Repr

namespace Properties

/-- The properties at the front of the marks, in either order, and what follows. -/
def ofMarks : List Mark → Properties × List Mark
  | .anchor a :: .tag _ t :: r => (⟨some a, some t⟩, r)
  | .anchor a :: r => (⟨some a, none⟩, r)
  | .tag _ t :: .anchor a :: r => (⟨some a, some t⟩, r)
  | .tag _ t :: r => (⟨none, some t⟩, r)
  | ms => (⟨none, none⟩, ms)

def isEmpty (p : Properties) : Bool := p.anchor.isNone && p.tag.isNone

/-- The node with these properties. -/
def apply (p : Properties) (v : Node) : Node :=
  let v := match p.tag with
    | some t => .tagged t v
    | none => v
  match p.anchor with
  | some a => .anchored a v
  | none => v

end Properties

mutual

/-- The value at the front of the marks, in at most `n` steps. Behind properties nothing may be written. -/
def node? (n : Nat) (position : Position) (ms : List Mark) : Option (Node × List Mark) :=
  match n with
  | 0 => none
  | n + 1 =>
    let (properties, rest) := Properties.ofMarks ms
    let inBlock := position ≠ .flow
    let content : Option (Node × List Mark) := match rest with
      | .scalar s style :: r => some (.scalar (String.ofList s) style, r)
      | .alias name :: r => if properties.isEmpty then some (.alias name, r) else none
      | .openItems :: r => flowItems? n [] r
      | .openEntries :: r => flowEntries? n [] r
      | .openSequence :: r => if inBlock then blockItems? n [] r else none
      | .openMapping :: r => if inBlock then blockEntries? n [] r else none
      | .dash :: r =>
        if position = .entry then plainItems? n [] (.dash :: r)
        else if properties.isEmpty then none
        else some (.blank, .dash :: r)
      | r => if properties.isEmpty then none else some (.blank, r)
    content.map fun (v, r) => (properties.apply v, r)

/-- A key in brackets. -/
def flowKey? (n : Nat) (ms : List Mark) : Option (Node × List Mark) :=
  match n, ms with
  | 0, _ => none
  | _ + 1, .value :: r => some (.blank, .value :: r)
  | n + 1, ms => if endsFlow ms then some (.blank, ms) else node? n .flow ms

/-- The value of a key in brackets. -/
def flowValue? (n : Nat) (ms : List Mark) : Option (Node × List Mark) :=
  match n, ms with
  | 0, _ => none
  | n + 1, .value :: r => if endsFlow r then some (.blank, r) else node? n .flow r
  | _ + 1, ms => some (.blank, ms)

/-- The items behind those already read, up to their closing bracket. An entry among them is a mapping
of its own. -/
def flowItems? (n : Nat) (before : List Node) (ms : List Mark) : Option (Node × List Mark) :=
  match n, ms with
  | 0, _ => none
  | _ + 1, .closeItems :: r => some (.sequence before.reverse, r)
  | n + 1, ms =>
    let item := match ms with
      | .key :: r => do
        let (k, r) ← flowKey? n r
        let (v, r) ← flowValue? n r
        some (Node.mapping [(k, v)], r)
      | ms => node? n .flow ms
    match item with
    | some (v, .comma :: r) => flowItems? n (v :: before) r
    | some (v, .closeItems :: r) => some (.sequence (v :: before).reverse, r)
    | _ => none

/-- The entries behind those already read, up to their closing bracket. A key may have no value. -/
def flowEntries? (n : Nat) (before : List (Node × Node)) (ms : List Mark) : Option (Node × List Mark) :=
  match n, ms with
  | 0, _ => none
  | _ + 1, .closeEntries :: r => some (.mapping before.reverse, r)
  | n + 1, ms =>
    let entry := match ms with
      | .key :: r => do
        let (k, r) ← flowKey? n r
        let (v, r) ← flowValue? n r
        some ((k, v), r)
      | ms => (node? n .flow ms).map fun (k, r) => ((k, Node.blank), r)
    match entry with
    | some (e, .comma :: r) => flowEntries? n (e :: before) r
    | some (e, .closeEntries :: r) => some (.mapping (e :: before).reverse, r)
    | _ => none

/-- The items of a block behind those already read, up to its end. -/
def blockItems? (n : Nat) (before : List Node) (ms : List Mark) : Option (Node × List Mark) :=
  match n, ms with
  | n + 1, .dash :: r =>
    match (if endsItem r then some (Node.blank, r) else node? n .block r) with
    | some (v, r) => blockItems? n (v :: before) r
    | none => none
  | _ + 1, .closeBlock :: r => some (.sequence before.reverse, r)
  | _, _ => none

/-- The items at the column of their key, behind those already read. -/
def plainItems? (n : Nat) (before : List Node) (ms : List Mark) : Option (Node × List Mark) :=
  match n, ms with
  | 0, _ => none
  | n + 1, .dash :: r =>
    match (if endsItem r || endsEntry r then some (Node.blank, r) else node? n .block r) with
    | some (v, r) => plainItems? n (v :: before) r
    | none => none
  | _ + 1, ms => some (.sequence before.reverse, ms)

/-- The entries of a block behind those already read, up to its end. -/
def blockEntries? (n : Nat) (before : List (Node × Node)) (ms : List Mark) : Option (Node × List Mark) :=
  match n, ms with
  | n + 1, .key :: r =>
    match (if endsEntry r then some (Node.blank, r) else node? n .entry r) with
    | some (k, .value :: r) =>
      match (if endsEntry r then some (Node.blank, r) else node? n .entry r) with
      | some (v, r) => blockEntries? n ((k, v) :: before) r
      | none => none
    | some (k, r) => blockEntries? n ((k, Node.blank) :: before) r
    | none => none
  | _ + 1, .closeBlock :: r => some (.mapping before.reverse, r)
  | _, _ => none

end

/-! ## Names -/

/-- The directives at the front of the marks, and what follows. -/
def directives : List Mark → List Directive × List Mark
  | .directive d :: r => (d :: (directives r).1, (directives r).2)
  | ms => ([], ms)

/-- Whether directives go together: one version at most, which this notation has, and no handle twice. -/
def areSound : List Directive → Bool
  | [] => true
  | .version major minor :: r =>
    major == ['1'] && (minor == ['1'] || minor == ['2']) && areSound r
      && r.all fun d => match d with
        | .version _ _ => false
        | .handle _ _ => true
  | .handle name _ :: r =>
    areSound r && r.all fun d => match d with
      | .version _ _ => true
      | .handle other _ => other != name

/-- What a handle stands for. -/
def stem? (ds : List Directive) (handle : String) : Option String :=
  let said := ds.findSome? fun d => match d with
    | .handle name stem => if name = handle then some stem else none
    | .version _ _ => none
  let usual :=
    if handle = "" then some ""
    else if handle = "!" then some "!"
    else if handle = "!!" then some "tag:yaml.org,2002:"
    else none
  if handle = "" then usual else said.orElse fun _ => usual

/-- The marks with the handles of tags replaced by what they stand for. -/
def withTags? (ds : List Directive) (ms : List Mark) : Option (List Mark) :=
  ms.mapM fun m => match m with
    | .tag handle rest => (stem? ds handle).map fun stem => .tag "" (stem ++ rest)
    | m => some m

mutual

/-- The node with every name replaced by the last node of that name before it, and the named nodes so
far. -/
def Node.resolve? (named : List (String × Node)) : Node → Option (Node × List (String × Node))
  | .scalar s style => some (.scalar s style, named)
  | .sequence items => (resolveItems? named items).map fun (vs, named) => (.sequence vs, named)
  | .mapping entries => (resolveEntries? named entries).map fun (es, named) => (.mapping es, named)
  | .tagged tag v => (v.resolve? named).map fun (v, named) => (.tagged tag v, named)
  | .anchored name v => (v.resolve? named).map fun (v, named) => (v, (name, v) :: named)
  | .alias name => (named.find? fun e => e.1 == name).map fun e => (e.2, named)

def resolveItems? (named : List (String × Node)) :
    List Node → Option (List Node × List (String × Node))
  | [] => some ([], named)
  | v :: r =>
    match v.resolve? named with
    | none => none
    | some (v, named) => (resolveItems? named r).map fun (vs, named) => (v :: vs, named)

def resolveEntries? (named : List (String × Node)) :
    List (Node × Node) → Option (List (Node × Node) × List (String × Node))
  | [] => some ([], named)
  | (k, v) :: r =>
    match k.resolve? named with
    | none => none
    | some (k, named) =>
      match v.resolve? named with
      | none => none
      | some (v, named) => (resolveEntries? named r).map fun (es, named) => ((k, v) :: es, named)

end

/-! ## Documents -/

/-- The single document that the marks make up, its names not looked up. Directives need a line that opens
the document, and such a document may be blank. -/
def document? (ds : List Directive) (ms : List Mark) : Option Node :=
  let isOpened := ms.head? == some .opening
  let body := if isOpened then ms.tail else ms
  let isBlank := body.head?.all fun m => match m with
    | .opening => true
    | .closing => true
    | .directive _ => true
    | _ => false
  let content :=
    if isBlank then (if isOpened then some (Node.blank, body) else none)
    else if ds.isEmpty || isOpened then node? (2 * body.length + 2) .block body
    else none
  match content with
  | some (v, rest) => if rest.all (· == .closing) then some v else none
  | none => none

def ofMarks? (ms : List Mark) : Option Node := do
  let (ds, body) := directives ms
  if areSound ds then
    let v ← document? ds (← withTags? ds body)
    (v.resolve? []).map (·.1)
  else none

/-- The document of a text. -/
def parse? (rigor : Rigor) (s : String) : Option Node := (marks? rigor s).bind ofMarks?

/-! ## Nesting -/

mutual

/-- How many sequences and mappings lie inside one another. -/
def Node.depth : Node → Nat
  | .scalar _ _ => 0
  | .alias _ => 0
  | .tagged _ v => v.depth
  | .anchored _ v => v.depth
  | .sequence items => depthOfItems items + 1
  | .mapping entries => depthOfEntries entries + 1

def depthOfItems : List Node → Nat
  | [] => 0
  | v :: r => max v.depth (depthOfItems r)

def depthOfEntries : List (Node × Node) → Nat
  | [] => 0
  | (k, v) :: r => max (max k.depth v.depth) (depthOfEntries r)

end

end SwapRouting.Yaml
