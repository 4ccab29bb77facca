import SwapRouting.Format.Notation
import SwapRouting.Format.Records
import SwapRouting.Format.Yaml
import SwapRouting.Generation

/-! Snapshot files: the pools, fees and tokens of one block in a text. The name of a file tells its
notation. -/
namespace SwapRouting
set_option autoImplicit false

open Format Json

structure SnapshotFile where
  height : Nat
  pools : List PoolRecord
  fees : List TakerFee
  tokens : List Token
deriving Repr, DecidableEq, Inhabited

inductive SnapshotError where
  /-- There is no such file. -/
  | missing
  | undecodable (written : Notation)
deriving DecidableEq, Repr, Inhabited

def SnapshotError.message : SnapshotError → String
  | missing => "read pool snapshot"
  | undecodable written => "decode " ++ written.name ++ " pool snapshot"

namespace SnapshotFile

variable {V : Type} [Source V]

def fieldNames : List String := ["height", "pools", "taker_fees", "tokens"]

def read? (v : V) : Option SnapshotFile := do
  let [height, pools, fees, tokens] ← record? fieldNames v | none
  some {
    height := ← required word64? height
    pools := ← optional (list? (PoolRecord.read? 2)) [] pools
    fees := ← optional (list? TakerFee.read?) [] fees
    tokens := ← optional (list? Token.read?) [] tokens }

def toJson (f : SnapshotFile) : Value :=
  Value.record [
    ("height", .ofNat f.height),
    ("pools", .ofList PoolRecord.toJson f.pools),
    ("taker_fees", .ofList TakerFee.toJson f.fees),
    ("tokens", .ofList Token.toJson f.tokens)]

def ofText? : Notation → String → Option SnapshotFile
  | .json, s => (Json.parse? s).bind read?
  | .yaml, s => (Yaml.parse? .strict s).bind read?

/-- The snapshot in a file of this name, which holds this text if it exists. -/
def ofFile (file : String) (text : Option String) : Except SnapshotError SnapshotFile :=
  match text with
  | none => .error .missing
  | some s => orError (.undecodable (Notation.ofFileName file)) (ofText? (Notation.ofFileName file) s)

/-- The pools that can be traded with. -/
def livePools (f : SnapshotFile) (whitelist : CodeWhitelist) : List Pool :=
  f.pools.filterMap fun p => p.pool? whitelist

def block (f : SnapshotFile) (whitelist : CodeWhitelist) : Block :=
  ⟨f.height, f.livePools whitelist, f.fees⟩

/-- The pool with this identifier, if its first record can be traded with. -/
def pool? (f : SnapshotFile) (whitelist : CodeWhitelist) (id : Nat) : Option Pool :=
  (f.pools.find? fun p => p.id == id).bind fun p => p.pool? whitelist

def tokenList (f : SnapshotFile) : TokenList := TokenList.ofTokens f.tokens

end SnapshotFile

end SwapRouting
