import SwapRouting.Format.Settings
import SwapRouting.Outcome
import SwapRouting.Settings.Document

/-! The settings of the whole application: those of the router, the contract codes, and where files
are found. They are read from a document, overlaid by variables of the environment. A variable belongs
to the settings if its name starts with `APP__`; two underscores divide the keys of its path. -/
namespace SwapRouting
set_option autoImplicit false

open Format

structure AppConfig where
  router : RouterConfig
  pools : CodeWhitelist
  snapshotPath : String
  /-- Where pinned routes are kept. -/
  overwriteRoutesPath : String
  routeOverwriteEnabled : Bool
  /-- Milliseconds between two looks at the snapshot. -/
  ingestIntervalMs : Nat
  stateDumpDir : Option String
deriving Repr, DecidableEq, Inhabited

inductive AppConfigError where
  /-- The document or a value in it cannot be used. -/
  | unreadable
  /-- An index counts back past the first item of its list. -/
  | noSuchItem
  | invalidRouter (cause : ConfigError)
deriving DecidableEq, Repr, Inhabited

/-- The text of the error, where it has one of its own. -/
def AppConfigError.message? : AppConfigError → Option String
  | unreadable => none
  | noSuchItem => none
  | invalidRouter cause => some ("invalid router config: " ++ cause.message)

namespace AppConfig

/-- The wait between two looks at the snapshot, one millisecond at least. -/
def ingestInterval (c : AppConfig) : Nat := max c.ingestIntervalMs 1

/-- A path that may be left out or be nothing. -/
def optionalPath? : Option Setting → Option (Option String)
  | none => some none
  | some .nothing => some none
  | some v => (Source.text? v).map some

def fieldNames : List String :=
  ["router", "pools", "snapshot_path", "overwrite_routes_path", "route_overwrite_enabled",
    "ingest_interval_ms", "state_dump_dir"]

def read? (v : Setting) : Option AppConfig := do
  let [router, pools, snapshot, overwrites, enabled, interval, dump] ← record? fieldNames v | none
  some {
    router := ← optional RouterConfig.read? {} router
    pools := ← optional CodeWhitelist.read? {} pools
    snapshotPath := ← required Source.text? snapshot
    overwriteRoutesPath := ← optional Source.text? "route_overwrites" overwrites
    routeOverwriteEnabled := ← optional Source.flag? true enabled
    ingestIntervalMs := ← optional word64? 1000 interval
    stateDumpDir := ← optionalPath? dump }

/-! ## Sources -/

/-- The key that a variable of the environment stands for, if it belongs to the settings. -/
def variableKey? (name : String) : Option String :=
  match (Setting.lower name).splitOn "__" with
  | "app" :: key :: rest => some (String.intercalate "." (key :: rest))
  | _ => none

/-- The settings in the environment. -/
def ofEnvironment (environment : List (String × String)) : List (String × Setting) :=
  environment.filterMap fun e => (variableKey? e.1).map fun k => (k, .text e.2)

/-- Reads the settings from a file with a name and a text, if there is one, and from the
environment. -/
def load (file : Option (String × String)) (environment : List (String × String)) :
    Except AppConfigError AppConfig := do
  let base ← match file with
    | none => .ok []
    | some (name, s) => orError .unreadable (Setting.entriesOf? name s)
  let root ← orError .noSuchItem (Setting.putAll? (.table []) (base ++ ofEnvironment environment))
  let config ← orError .unreadable (read? root)
  match config.router.validate with
  | .error e => .error (.invalidRouter e)
  | .ok () => .ok config

end AppConfig

end SwapRouting
