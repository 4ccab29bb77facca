import SwapRouting.Candidate
import SwapRouting.Format.Json
import SwapRouting.Pool.Basic
import SwapRouting.TakerFee
import SwapRouting.Tokens

/-! The written form of coins, pools, candidate routes, fees and tokens.

Each record has a reader from any source and a writer to a document, and what the writer writes the
reader reads back. The names of the fields stand in the order in which they are written. -/
namespace SwapRouting
set_option autoImplicit false

open Format Json

variable {V : Type} [Source V]

/-! ## Coins -/

namespace Coin

def fieldNames : List String := ["denom", "amount"]

def read? (v : V) : Option Coin := do
  let [denom, amount] ← record? fieldNames v | none
  some {
    denom := ← required Source.text? denom
    amount := ← required Source.amount? amount }

def toJson (c : Coin) : Value :=
  Value.record [("denom", .ofString c.denom), ("amount", .ofNat c.amount)]

end Coin

/-! ## Kinds of pools -/

namespace PoolKind

/-- The name of a kind in its `kind` field. -/
def tag : PoolKind → String
  | constantProduct => "constant_product"
  | stableSwap => "stable_swap"
  | concentrated => "concentrated"
  | contract _ _ => "cosm_wasm"

/-- The kind with this tag among those that have no other fields. -/
def plain? (s : String) : Option PoolKind :=
  [constantProduct, stableSwap, concentrated].find? fun k => k.tag == s

/-- The role that a value names, as a text or as the name of an empty record. -/
def role? (v : V) : Option ContractRole :=
  match Source.text? v with
  | some s => ContractRole.ofName? s
  | none =>
    match Source.fields? v with
    | some [(name, content)] =>
      if Source.isNull content || (Source.fields? content).any List.isEmpty then
        ContractRole.ofName? name
      else none
    | _ => none

/-- The kind with a tag and the fields of a contract, which only a contract looks at. -/
def tagged? (s : String) (codeId role : Option (Option V)) : Option PoolKind :=
  if s = "cosm_wasm" then do
    some (contract (← required word64? (← codeId)) (← required PoolKind.role? (← role)))
  else plain? s

/-- A kind is told by its `kind` field, so all parts of the value are looked at before any is read.
`around` is the number of containers around the value. -/
def read? (around : Nat) (v : V) : Option PoolKind :=
  if !Source.isSound around v then none
  else
    match Source.fields? v with
    | some fields => do
      let s ← required Source.text? (← fieldNamed? fields "kind")
      tagged? s (fieldNamed? fields "code_id") (fieldNamed? fields "class")
    | none =>
      match Source.items? v with
      | some [s] => (Source.text? s).bind plain?
      | some [s, codeId, role] => do
        let s ← Source.text? s
        if s = "cosm_wasm" then tagged? s (some (some codeId)) (some (some role)) else none
      | _ => none

def toJson : PoolKind → Value
  | contract codeId role =>
    Value.record [("kind", .ofString "cosm_wasm"), ("code_id", .ofNat codeId),
      ("class", .ofString role.name)]
  | k => Value.record [("kind", .ofString k.tag)]

end PoolKind

/-! ## Pools -/

namespace PoolRecord

def fieldNames : List String :=
  ["id", "pool_type", "denoms", "balances", "spread_factor", "liquidity_cap"]

/-- A pool inside `around` containers. -/
def read? (around : Nat) (v : V) : Option PoolRecord := do
  let [id, kind, denoms, balances, spread, cap] ← record? fieldNames v | none
  some {
    id := ← required word64? id
    kind := ← required (PoolKind.read? (around + 1)) kind
    denoms := ← required (list? Source.text?) denoms
    balances := ← optional (list? Coin.read?) [] balances
    spread := ← required Source.decimal? spread
    liquidityCap := ← required word64? cap }

def toJson (p : PoolRecord) : Value :=
  Value.record [
    ("id", .ofNat p.id),
    ("pool_type", p.kind.toJson),
    ("denoms", .ofList Value.ofString p.denoms),
    ("balances", .ofList Coin.toJson p.balances),
    ("spread_factor", .ofDecimal p.spread),
    ("liquidity_cap", .ofNat p.liquidityCap)]

end PoolRecord

/-! ## Candidate routes -/

namespace Hop

def fieldNames : List String := ["id", "token_out_denom"]

def read? (v : V) : Option Hop := do
  let [id, denomOut] ← record? fieldNames v | none
  some {
    pool := ← required word64? id
    denomOut := ← required Source.text? denomOut }

def toJson (h : Hop) : Value :=
  Value.record [("id", .ofNat h.pool), ("token_out_denom", .ofString h.denomOut)]

end Hop

namespace CandidateRoute

def read? (v : V) : Option CandidateRoute := do
  let [pools] ← record? ["pools"] v | none
  some { hops := ← required (list? Hop.read?) pools }

def toJson (r : CandidateRoute) : Value := Value.record [("pools", .ofList Hop.toJson r.hops)]

end CandidateRoute

namespace CandidateRoutes

/-- The identifiers are taken as written, not from the routes. -/
def read? (v : V) : Option CandidateRoutes := do
  let [routes, ids] ← record? ["routes", "unique_pool_ids"] v | none
  some {
    routes := ← required (list? CandidateRoute.read?) routes
    poolIds := ascending (← required (list? word64?) ids) }

def toJson (c : CandidateRoutes) : Value :=
  Value.record [("routes", .ofList CandidateRoute.toJson c.routes),
    ("unique_pool_ids", .ofList Value.ofNat c.poolIds)]

end CandidateRoutes

/-! ## Taker fees -/

namespace DenomPair

/-- The denoms stay in the order in which they are written. -/
def read? (v : V) : Option DenomPair := do
  let [first, second] ← record? ["denom0", "denom1"] v | none
  some {
    first := ← required Source.text? first
    second := ← required Source.text? second }

def toJson (p : DenomPair) : Value :=
  Value.record [("denom0", .ofString p.first), ("denom1", .ofString p.second)]

end DenomPair

namespace TakerFee

def fieldNames : List String := ["denom0", "denom1", "fee"]

def read? (v : V) : Option TakerFee := do
  let [first, second, fee] ← record? fieldNames v | none
  some {
    first := ← required Source.text? first
    second := ← required Source.text? second
    fee := ← required Source.decimal? fee }

def toJson (f : TakerFee) : Value :=
  Value.record [("denom0", .ofString f.first), ("denom1", .ofString f.second),
    ("fee", .ofDecimal f.fee)]

end TakerFee

/-! ## Tokens -/

namespace Token

def fieldNames : List String := ["denom", "precision"]

def read? (v : V) : Option Token := do
  let [denom, precision] ← record? fieldNames v | none
  some {
    denom := ← required Source.text? denom
    precision := ← required word32? precision }

def toJson (t : Token) : Value :=
  Value.record [("denom", .ofString t.denom), ("precision", .ofNat t.precision)]

end Token

end SwapRouting
