import SwapRouting.Format.Records
import SwapRouting.Overwrite.Validation

/-! The store of pinned routes, by the denom they start from.

A persistent store also keeps one file for each denom in a directory of its own, which is created with
the first file. Files are read back on demand, each one checked again; those that are not valid any
more are passed over. -/
namespace SwapRouting
set_option autoImplicit false

/-- The written form of the routes pinned for one denom. -/
structure OverwriteRecord where
  denomIn : Denom
  routes : List CandidateRoute
deriving Repr, DecidableEq

namespace OverwriteRecord

open Format Json

variable {V : Type} [Source V]

def read? (v : V) : Option OverwriteRecord := do
  let [denomIn, routes] ← record? ["token_in_denom", "routes"] v | none
  some {
    denomIn := ← required Source.text? denomIn
    routes := ← required (list? CandidateRoute.read?) routes }

def toJson (r : OverwriteRecord) : Value :=
  Value.record [("token_in_denom", .ofString r.denomIn),
    ("routes", .ofList CandidateRoute.toJson r.routes)]

/-- The record that a file holds. -/
def ofText? (s : String) : Option OverwriteRecord := (parse? s).bind read?

def text (r : OverwriteRecord) : String := r.toJson.pretty

end OverwriteRecord

/-! ## Files -/

/-- The two hexadecimal digits of a byte. -/
def byteDigits (b : UInt8) : List Char := [Json.hexDigit (b.toNat / 16), Json.hexDigit (b.toNat % 16)]

/-- The name of the file for a denom: its bytes in hexadecimal. -/
def overwriteFileName (denom : Denom) : String :=
  String.ofList (denom.toUTF8.toList.flatMap byteDigits) ++ ".json"

/-- The longest file name, in bytes. -/
abbrev longestFileName : Nat := 255

/-- Whether the part of a name behind its last dot is `json`. A dot in front does not count. -/
def isRecordFile (name : String) : Bool :=
  let ext := ['.', 'j', 's', 'o', 'n']
  let cs := name.toList
  ext.isSuffixOf cs && decide (ext.length < cs.length)

/-- Texts by file name. -/
abbrev Directory := Dict String String

/-! ## The store -/

structure OverwriteStore where
  /-- Whether accepted routes are also written to files. -/
  persistent : Bool
  /-- The directory of the files, once there is one. -/
  directory : Option Directory
  pinned : Dict Denom (List CandidateRoute)
deriving Repr, DecidableEq

namespace OverwriteStore

/-- A store without routes over a directory. -/
def opened (persistent : Bool) (directory : Option Directory) : OverwriteStore :=
  ⟨persistent, directory, Dict.empty⟩

def size (s : OverwriteStore) : Nat := s.pinned.size

def isEmpty (s : OverwriteStore) : Bool := s.pinned.isEmpty

/-- The routes pinned for `denomIn`, if they end in `denomOut`. -/
def get? (s : OverwriteStore) (denomIn denomOut : Denom) : Option (List CandidateRoute) :=
  (s.pinned.get? denomIn).bind fun routes =>
    if (routes.head?.bind CandidateRoute.denomOut?) = some denomOut then some routes else none

def install (s : OverwriteStore) (denomIn : Denom) (routes : List CandidateRoute) :
    OverwriteStore :=
  { s with pinned := s.pinned.insert denomIn routes }

/-- Writes the file of a denom. The directory is there afterwards even if the file cannot be
written. -/
def write (s : OverwriteStore) (denomIn : Denom) (routes : List CandidateRoute) :
    Except StorageFault Unit × OverwriteStore :=
  let files := s.directory.getD Dict.empty
  let name := overwriteFileName denomIn
  if longestFileName < name.utf8ByteSize then
    (.error (.nameTooLong name), { s with directory := some files })
  else
    let text := OverwriteRecord.text ⟨denomIn, routes⟩
    (.ok (), { s with directory := some (files.insert name text) })

/-- Pins the routes for `denomIn` instead of those pinned before. Nothing is pinned if the routes are
not valid or their file cannot be written. -/
def overwrite (s : OverwriteStore) (snapshot : PoolSnapshot) (denomIn : Denom)
    (routes : List CandidateRoute) : Except RouterError Unit × OverwriteStore :=
  let violations := overwriteViolations snapshot denomIn routes
  if !violations.isEmpty then (.error (.invalidOverwrite violations), s)
  else if s.persistent then
    let written := s.write denomIn routes
    match written.1 with
    | .error e => (.error (.storage e), written.2)
    | .ok () => (.ok (), written.2.install denomIn routes)
  else (.ok (), s.install denomIn routes)

/-- Pins the records of these files in turn and counts them; stops at a file that holds none. -/
def loadFiles (snapshot : PoolSnapshot) (s : OverwriteStore) (loaded : Nat) :
    List (String × String) → Except RouterError Nat × OverwriteStore
  | [] => (.ok loaded, s)
  | (name, text) :: rest =>
    match OverwriteRecord.ofText? text with
    | none => (.error (.storage (.undecodable name)), s)
    | some r =>
      if (overwriteViolations snapshot r.denomIn r.routes).isEmpty then
        loadFiles snapshot (s.install r.denomIn r.routes) (loaded + 1) rest
      else loadFiles snapshot s loaded rest

/-- Pins what the files of the directory hold, in the order of their names, and counts what was
pinned. A missing directory holds nothing. -/
def load (s : OverwriteStore) (snapshot : PoolSnapshot) : Except RouterError Nat × OverwriteStore :=
  match s.persistent, s.directory with
  | true, some files => loadFiles snapshot s 0 (files.entries.filter fun f => isRecordFile f.1)
  | _, _ => (.ok 0, s)

/-- A new store over the same directory. -/
def reopened (s : OverwriteStore) : OverwriteStore := opened s.persistent s.directory

end OverwriteStore

end SwapRouting
