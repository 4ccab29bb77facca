/-! Kinds of liquidity pools.

A pool run by a contract is known by its code identifier, and its role follows from the list of
codes in `CodeWhitelist`. -/
namespace SwapRouting
set_option autoImplicit false

/-- What a pool run by a contract does. -/
inductive ContractRole where
  | transmuter
  | alloyedTransmuter
  | orderbook
  /-- A pool whose every quote needs a call to the chain. -/
  | generalized
deriving DecidableEq, Repr, Inhabited

namespace ContractRole

def name : ContractRole → String
  | transmuter => "transmuter"
  | alloyedTransmuter => "alloyed_transmuter"
  | orderbook => "orderbook"
  | generalized => "generalized"

def all : List ContractRole := [transmuter, alloyedTransmuter, orderbook, generalized]

/-- The role with this name. -/
def ofName? (s : String) : Option ContractRole := all.find? fun r => r.name == s

end ContractRole

inductive PoolKind where
  | constantProduct
  | stableSwap
  | concentrated
  | contract (codeId : Nat) (role : ContractRole)
deriving DecidableEq, Repr, Inhabited

namespace PoolKind

def codeId? : PoolKind → Option Nat
  | contract codeId _ => some codeId
  | _ => none

def isGeneralized : PoolKind → Bool
  | contract _ .generalized => true
  | _ => false

def isOrderbook : PoolKind → Bool
  | contract _ .orderbook => true
  | _ => false

/-- The name a quote shows for the kind. -/
def label : PoolKind → String
  | constantProduct => "constant_product"
  | stableSwap => "stableswap"
  | concentrated => "concentrated"
  | contract _ role => "cosmwasm_" ++ role.name

end PoolKind

/-- Code identifiers of the contracts that may be routed through, by role. -/
structure CodeWhitelist where
  transmuter : List Nat := []
  alloyedTransmuter : List Nat := []
  orderbook : List Nat := []
  generalized : List Nat := []
deriving DecidableEq, Repr, Inhabited

/-- The role of a code; an earlier role wins where several list it. -/
def CodeWhitelist.role? (w : CodeWhitelist) (codeId : Nat) : Option ContractRole :=
  if w.transmuter.contains codeId then some .transmuter
  else if w.alloyedTransmuter.contains codeId then some .alloyedTransmuter
  else if w.orderbook.contains codeId then some .orderbook
  else if w.generalized.contains codeId then some .generalized
  else none

end SwapRouting
