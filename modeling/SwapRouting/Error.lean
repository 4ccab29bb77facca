import SwapRouting.Context
import SwapRouting.Config
import SwapRouting.Pool.Curve

/-! Errors of the router: one constructor for each cause, with its kind, its class and its text. -/
namespace SwapRouting
set_option autoImplicit false

/-- Why pinned routes are refused. Routes are counted from zero. -/
inductive OverwriteViolation where
  | noRoutes
  | emptyRoute (route : Nat)
  | poolNotFound (route pool : Nat)
  | denomNotInPool (route pool : Nat) (denom : Denom)
  | repeatedPool (route pool : Nat)
  | denomOutMismatch (route : Nat) (expected actual : Denom)
deriving DecidableEq, Repr, Inhabited

def OverwriteViolation.message : OverwriteViolation → String
  | noRoutes => "routes cannot be empty"
  | emptyRoute route => "route " ++ route.repr ++ " has no pools"
  | poolNotFound route pool => "pool " ++ pool.repr ++ " of route " ++ route.repr ++ " not found"
  | denomNotInPool route pool denom =>
    "denom " ++ denom ++ " not found in pool " ++ pool.repr ++ " of route " ++ route.repr
  | repeatedPool route pool => "pool " ++ pool.repr ++ " repeats within route " ++ route.repr
  | denomOutMismatch route expected actual =>
    "route " ++ route.repr ++ " ends in " ++ actual ++ ", expected " ++ expected

/-- Why pinned routes cannot be kept or read back. -/
inductive StorageFault where
  /-- The file name is longer than the directory allows. -/
  | nameTooLong (name : String)
  /-- The text of a file is no record of pinned routes. -/
  | undecodable (name : String)
deriving DecidableEq, Repr, Inhabited

inductive RouterError where
  | equalDenoms (denom : Denom)
  | zeroAmount
  | unsupportedDenom (denom : Denom)
  | emptyRoute
  | denomNotInPool (denom : Denom) (pool : Nat)
  | selfSwap (pool : Nat) (denom : Denom)
  | noPoolIds
  | repeatedPool (pool : Nat)
  | disconnected (pools : List Nat) (denomIn denomOut : Denom)
  | overwritesDisabled
  | invalidConfig (cause : ConfigError)
  | invalidOverwrite (violations : List OverwriteViolation)
  | poolNotFound (pool : Nat)
  | noRoute (denomIn denomOut : Denom)
  | nothingQuoted (candidates : Nat)
  | noRankedRoutes
  | cacheMiss (denomIn denomOut : Denom)
  | computation (cause : SwapError)
  | cancelled (stage : Stage)
  /-- A route of the allocation could not be quoted for its share. -/
  | requoteFailed (share : Nat)
  /-- The shares of a split do not add up to the request. -/
  | notConserved
  /-- A ranking succeeded without a route. -/
  | emptyRanking
  | storage (fault : StorageFault)
  /-- A fee, a spread or a price left the range of decimals. -/
  | decimalRange
deriving DecidableEq, Repr, Inhabited

/-- The kind of an error, as callers tell errors apart. -/
inductive ErrorKind where
  | validation
  | invalidOverwrite
  | notFound
  | cacheMiss
  | computation
  | cancelled
  | internal
  | persistence
  | decimalRange
deriving DecidableEq, Repr, Inhabited

/-- How callers handle an error. -/
inductive ErrorClass where
  | validation
  | notFound
  | computation
  | cancelled
  | internal
deriving DecidableEq, Repr, Inhabited

def ErrorClass.name : ErrorClass → String
  | validation => "validation"
  | notFound => "not_found"
  | computation => "computation"
  | cancelled => "cancelled"
  | internal => "internal"

def ErrorKind.errorClass : ErrorKind → ErrorClass
  | validation => .validation
  | invalidOverwrite => .validation
  | notFound => .notFound
  | cacheMiss => .notFound
  | computation => .computation
  | cancelled => .cancelled
  | internal => .internal
  | persistence => .internal
  | decimalRange => .internal

namespace RouterError

def kind : RouterError → ErrorKind
  | equalDenoms _ => .validation
  | zeroAmount => .validation
  | unsupportedDenom _ => .validation
  | emptyRoute => .validation
  | denomNotInPool _ _ => .validation
  | selfSwap _ _ => .validation
  | noPoolIds => .validation
  | repeatedPool _ => .validation
  | disconnected _ _ _ => .validation
  | overwritesDisabled => .validation
  | invalidConfig _ => .validation
  | invalidOverwrite _ => .invalidOverwrite
  | poolNotFound _ => .notFound
  | noRoute _ _ => .notFound
  | nothingQuoted _ => .notFound
  | noRankedRoutes => .notFound
  | cacheMiss _ _ => .cacheMiss
  | computation _ => .computation
  | cancelled _ => .cancelled
  | requoteFailed _ => .internal
  | notConserved => .internal
  | emptyRanking => .internal
  | storage _ => .persistence
  | decimalRange => .decimalRange

def errorClass (e : RouterError) : ErrorClass := e.kind.errorClass

/-- Numbers in brackets. -/
def listed (ns : List Nat) : String := "[" ++ String.intercalate ", " (ns.map Nat.repr) ++ "]"

/-- What went wrong, without the kind of the error. -/
def detail : RouterError → String
  | equalDenoms denom => "token in and token out denoms are equal: " ++ denom
  | zeroAmount => "amount must be positive"
  | unsupportedDenom denom => "unsupported denom " ++ denom
  | emptyRoute => "route has no pools"
  | denomNotInPool denom pool => "denom " ++ denom ++ " not found in pool " ++ pool.repr
  | selfSwap pool denom => "pool " ++ pool.repr ++ " hop swaps " ++ denom ++ " for itself"
  | noPoolIds => "no pool IDs given"
  | repeatedPool pool => "pool " ++ pool.repr ++ " repeated in custom route"
  | disconnected pools denomIn denomOut =>
    "pools " ++ listed pools ++ " do not connect " ++ denomIn ++ " to " ++ denomOut
  | overwritesDisabled => "route overwrites are disabled"
  | invalidConfig cause => cause.message
  | invalidOverwrite violations =>
    String.intercalate "; " (violations.map OverwriteViolation.message)
  | poolNotFound pool => "pool " ++ pool.repr
  | noRoute denomIn denomOut => "no route from " ++ denomIn ++ " to " ++ denomOut
  | nothingQuoted candidates =>
    "no route could be quoted with a positive output (" ++ candidates.repr ++ " candidates)"
  | noRankedRoutes => "no ranked routes"
  | cacheMiss denomIn denomOut => denomIn ++ " -> " ++ denomOut
  | computation cause => cause.message
  | cancelled stage => "cancelled during " ++ stage.name
  | requoteFailed share => "allocated route failed to requote for " ++ share.repr
  | notConserved => "split allocation does not conserve the request amount"
  | emptyRanking => "ranking returned no routes"
  | storage (.nameTooLong name) => "file name too long: " ++ name
  | storage (.undecodable name) => "cannot decode " ++ name
  | decimalRange => "decimal out of range"

/-- The words in front of the detail. -/
def opening : ErrorKind → String
  | .validation => "validation error: "
  | .invalidOverwrite => "invalid route overwrite: "
  | .notFound => "not found: "
  | .cacheMiss => "cache miss for "
  | .computation => "computation error: "
  | .cancelled => "request cancelled: "
  | .internal => "internal invariant violated: "
  | .persistence => "persistence error: "
  | .decimalRange => ""

def message (e : RouterError) : String := opening e.kind ++ e.detail

/-- A failed trade as an error of the request. -/
def ofSwap : SwapError → RouterError
  | .decimalRange => .decimalRange
  | e => .computation e

end RouterError

/-- A trade as a step of a request. -/
def liftSwap {α : Type} : Except SwapError α → Except RouterError α
  | .ok a => .ok a
  | .error e => .error (RouterError.ofSwap e)

/-- Ends the request if its caller has gone. -/
def Context.check (c : Context) (stage : Stage) (step : Nat) : Except RouterError Unit :=
  if c.isDone stage step then .error (.cancelled stage) else .ok ()

end SwapRouting
