import SwapRouting.Proofs.Overwrite.Refusal

/-! Loads of pinned routes that fail.

A load pins the records of the files one after the other and stops at the first file that holds none. The
records read until then stay pinned: a failed load leaves the store as it was exactly when all of them were
pinned already. -/
namespace SwapRouting
set_option autoImplicit false

namespace OverwriteStore

variable {s t : OverwriteStore} {snapshot : PoolSnapshot} {denomIn : Denom}

/-! ## What is read -/

/-- The files of records, in the order of their names. -/
def recordFiles (s : OverwriteStore) : List (String × String) :=
  s.files.entries.filter fun f => isRecordFile f.1

/-- The records in front of the first file that holds none. -/
def readRecords (files : List (String × String)) : List OverwriteRecord :=
  (files.takeWhile fun f => (OverwriteRecord.ofText? f.2).isSome).filterMap
    fun f => OverwriteRecord.ofText? f.2

/-- The name of the first file that holds no record. -/
def unreadable? (files : List (String × String)) : Option String :=
  (files.find? fun f => (OverwriteRecord.ofText? f.2).isNone).map Prod.fst

/-- The routes of the records without faults, each with the denom they start from. -/
def faultless (snapshot : PoolSnapshot) (records : List OverwriteRecord) :
    List (Denom × List CandidateRoute) :=
  (records.filter fun r => (overwriteViolations snapshot r.denomIn r.routes).isEmpty).map
    fun r => (r.denomIn, r.routes)

/-- What a load pins: for every denom the last routes that are read for it. -/
def brought (s : OverwriteStore) (snapshot : PoolSnapshot) : Dict Denom (List CandidateRoute) :=
  Dict.ofList (faultless snapshot (readRecords s.recordFiles))

/-- The store with all these routes pinned, one after the other. -/
def installAll (s : OverwriteStore) (entries : List (Denom × List CandidateRoute)) : OverwriteStore :=
  { s with pinned := entries.foldl (fun d e => d.insert e.1 e.2) s.pinned }

/-- The result of a load that pins this many records. -/
def loadResult (loaded : Nat) : Option String → Except RouterError Nat
  | none => .ok loaded
  | some name => .error (.storage (.undecodable name))

theorem loadFiles_eq (snapshot : PoolSnapshot) (s : OverwriteStore) (loaded : Nat)
    (files : List (String × String)) :
    loadFiles snapshot s loaded files
      = (loadResult (loaded + (faultless snapshot (readRecords files)).length) (unreadable? files),
        s.installAll (faultless snapshot (readRecords files))) := by
  induction files generalizing s loaded with
  | nil => rfl
  | cons file rest ih =>
    obtain ⟨name, text⟩ := file
    rw [loadFiles]
    cases hread : OverwriteRecord.ofText? text with
    | none =>
      have hrecords : readRecords ((name, text) :: rest) = [] := by simp [readRecords, hread]
      have hname : unreadable? ((name, text) :: rest) = some name := by simp [unreadable?, hread]
      rw [hrecords, hname]
      rfl
    | some r =>
      have hrecords : readRecords ((name, text) :: rest) = r :: readRecords rest := by
        simp [readRecords, hread]
      have hname : unreadable? ((name, text) :: rest) = unreadable? rest := by simp [unreadable?, hread]
      rw [hrecords, hname]
      by_cases hvalid : (overwriteViolations snapshot r.denomIn r.routes).isEmpty = true
      · have hfaultless : faultless snapshot (r :: readRecords rest)
            = (r.denomIn, r.routes) :: faultless snapshot (readRecords rest) := by simp [faultless, hvalid]
        simp only [if_pos hvalid, ih, hfaultless, List.length_cons]
        rw [Nat.add_assoc, Nat.add_comm 1]
        rfl
      · have hfaultless : faultless snapshot (r :: readRecords rest)
            = faultless snapshot (readRecords rest) := by simp [faultless, hvalid]
        simp only [if_neg hvalid, ih, hfaultless]

theorem load_eq (h : s.persistent = true) (snapshot : PoolSnapshot) :
    s.load snapshot
      = (loadResult (faultless snapshot (readRecords s.recordFiles)).length (unreadable? s.recordFiles),
        s.installAll (faultless snapshot (readRecords s.recordFiles))) := by
  rw [load_of_persistent h, loadFiles_eq, Nat.zero_add]
  rfl

theorem persistent_of_load_eq_error {e : RouterError} (h : (s.load snapshot).1 = .error e) :
    s.persistent = true := by
  cases hpersistent : s.persistent with
  | true => rfl
  | false =>
    rw [load, hpersistent] at h
    cases h

/-! ## Answers after a load -/

theorem pinned_load_get? (h : s.persistent = true) (snapshot : PoolSnapshot) (denom : Denom) :
    (s.load snapshot).2.pinned.get? denom
      = ((s.brought snapshot).get? denom).or (s.pinned.get? denom) := by
  rw [load_eq h, brought]
  exact Dict.get?_foldl_insert _ _ denom

/-- What is brought has no faults. -/
theorem no_violations_of_brought {routes : List CandidateRoute}
    (h : (s.brought snapshot).get? denomIn = some routes) :
    overwriteViolations snapshot denomIn routes = [] := by
  obtain ⟨r, hr, hentry⟩ := List.mem_map.1 (Dict.mem_of_get?_ofList_eq_some h)
  rw [Prod.mk.injEq] at hentry
  rw [← hentry.1, ← hentry.2]
  exact List.isEmpty_iff.1 (List.mem_filter.1 hr).2

theorem pinned_get?_of_get? {denomOut : Denom} {routes : List CandidateRoute}
    (h : s.get? denomIn denomOut = some routes) : s.pinned.get? denomIn = some routes := by
  obtain ⟨pinned, hpinned, hif⟩ := Option.bind_eq_some_iff.1 h
  split at hif
  · exact hpinned.trans hif
  · cases hif

/-! ## Stores in use -/

/-- The stores that come about by requests, by loads, and by whatever else happens to their files. -/
inductive Reachable : OverwriteStore → Prop
  | opened (persistent : Bool) (directory : Option Directory) : Reachable (opened persistent directory)
  | overwrite {s : OverwriteStore} (h : Reachable s) (snapshot : PoolSnapshot) (denomIn : Denom)
    (routes : List CandidateRoute) : Reachable (s.overwrite snapshot denomIn routes).2
  | load {s : OverwriteStore} (h : Reachable s) (snapshot : PoolSnapshot) : Reachable (s.load snapshot).2
  | filesChange {s : OverwriteStore} (h : Reachable s) (directory : Option Directory) :
    Reachable { s with directory := directory }

theorem ascending_overwrite (h : s.pinned.Ascending) (snapshot : PoolSnapshot) (denomIn : Denom)
    (routes : List CandidateRoute) : (s.overwrite snapshot denomIn routes).2.pinned.Ascending := by
  rcases overwrite_cases s snapshot denomIn routes with ⟨-, hpinned⟩ | ⟨-, -, hpinned⟩
  · rw [hpinned]
    exact h
  · rw [hpinned]
    exact h.insert _ _

theorem ascending_load (h : s.pinned.Ascending) (snapshot : PoolSnapshot) :
    (s.load snapshot).2.pinned.Ascending := by
  cases hpersistent : s.persistent with
  | true =>
    rw [load_eq hpersistent]
    exact h.foldl_insert _
  | false =>
    rw [OverwriteStore.load, hpersistent]
    exact h

theorem Reachable.ascending (h : s.Reachable) : s.pinned.Ascending := by
  induction h with
  | opened persistent directory => exact List.Pairwise.nil
  | overwrite _ snapshot denomIn routes ih => exact ascending_overwrite ih snapshot denomIn routes
  | load _ snapshot ih => exact ascending_load ih snapshot
  | filesChange _ directory ih => exact ih

/-! ## Failed loads -/

/-- Whether all that a load brings is pinned already. -/
def BringsNothing (s : OverwriteStore) (snapshot : PoolSnapshot) : Prop :=
  ∀ denom routes, (s.brought snapshot).get? denom = some routes → s.pinned.get? denom = some routes

/-- A load leaves the answers and the number of overrides as they were exactly if it brings nothing. -/
theorem sameContent_load_iff (hs : s.Reachable) (hpersistent : s.persistent = true)
    (snapshot : PoolSnapshot) : s.SameContent (s.load snapshot).2 ↔ s.BringsNothing snapshot := by
  constructor
  · intro hsame denom routes hbrought
    have hloaded : (s.load snapshot).2.pinned.get? denom = some routes := by
      rw [pinned_load_get? hpersistent, hbrought, Option.some_or]
    obtain ⟨d, -, hanswers⟩ := answers_of_pinned (no_violations_of_brought hbrought) hloaded
    have hbefore : s.get? denom d = some routes := by rw [← hsame.get?, hanswers, if_pos rfl]
    exact pinned_get?_of_get? hbefore
  · intro hnothing
    refine sameContent_of_pinned ?_ (by rw [load_eq hpersistent]; rfl)
    refine (ascending_load hs.ascending snapshot).eq_of_get? hs.ascending fun denom => ?_
    rw [pinned_load_get? hpersistent]
    cases hbrought : (s.brought snapshot).get? denom with
    | none => exact Option.none_or
    | some routes => exact (hnothing denom routes hbrought).symm

/-- What a load has made of a store when it fails at a file. -/
structure FailsAt (s : OverwriteStore) (snapshot : PoolSnapshot) (name : String) (t : OverwriteStore) :
    Prop where
  fault : unreadable? s.recordFiles = some name
  files : t.files = s.files
  others : ∀ denom, (s.brought snapshot).get? denom = none →
    ∀ denomOut, t.get? denom denomOut = s.get? denom denomOut
  brought : ∀ denom routes, (s.brought snapshot).get? denom = some routes → t.Answers denom routes
  unchanged : s.SameContent t ↔ s.BringsNothing snapshot

/-- A load fails at the first file that holds no record, with the records in front of it pinned. -/
theorem failsAt_of_load_eq_error (hs : s.Reachable) {e : RouterError}
    (h : (s.load snapshot).1 = .error e) :
    ∃ name, e = .storage (.undecodable name) ∧ s.FailsAt snapshot name (s.load snapshot).2 := by
  have hpersistent := persistent_of_load_eq_error h
  have hload := load_eq hpersistent snapshot
  rw [hload] at h
  cases hname : unreadable? s.recordFiles with
  | none =>
    rw [hname] at h
    cases h
  | some name =>
    rw [hname] at h
    cases h
    refine ⟨name, rfl, hname, by rw [hload]; rfl, ?_, ?_, sameContent_load_iff hs hpersistent snapshot⟩
    · intro denom hnone denomOut
      rw [OverwriteStore.get?, OverwriteStore.get?, pinned_load_get? hpersistent, hnone, Option.none_or]
    · intro denom routes hsome
      refine answers_of_pinned (no_violations_of_brought hsome) ?_
      rw [pinned_load_get? hpersistent, hsome, Option.some_or]

/-! ## A load that changes answers and fails -/

def halfPools : PoolSnapshot := PoolSnapshot.ofPools 1 [recordPool 1 ["a", "b"]]

/-- The file of an override for `a` and, behind it, one that holds no record. -/
def halfDirectory : Directory :=
  Dict.ofList [("61.json", OverwriteRecord.text ⟨"a", [⟨[⟨1, "b"⟩]⟩]⟩), ("62.json", "\x7b")]

theorem halfLoad_failsAt :
    (∃ e, ((opened true (some halfDirectory)).load halfPools).1 = .error e) ∧
      (opened true (some halfDirectory)).FailsAt halfPools "62.json"
        ((opened true (some halfDirectory)).load halfPools).2 := by
  have herror : ((opened true (some halfDirectory)).load halfPools).1
      = .error (.storage (.undecodable "62.json")) := by decide +kernel
  obtain ⟨name, hname, hfails⟩ := failsAt_of_load_eq_error (.opened true (some halfDirectory)) herror
  cases hname
  exact ⟨⟨_, herror⟩, hfails⟩

/-- A load that fails leaves an override behind that was not there before. -/
theorem halfLoad_installs :
    ((opened true (some halfDirectory)).load halfPools).1 = .error (.storage (.undecodable "62.json")) ∧
      (opened true (some halfDirectory)).size = 0 ∧
      ((opened true (some halfDirectory)).load halfPools).2.size = 1 ∧
      (opened true (some halfDirectory)).get? "a" "b" = none ∧
      ((opened true (some halfDirectory)).load halfPools).2.get? "a" "b" = some [⟨[⟨1, "b"⟩]⟩] := by
  decide +kernel

end OverwriteStore

end SwapRouting
