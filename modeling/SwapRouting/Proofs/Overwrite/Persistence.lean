import Mathlib.Data.List.Perm.Basic
import Mathlib.Data.String.Basic
import SwapRouting.Proofs.Dict
import SwapRouting.Proofs.Overwrite
import SwapRouting.Proofs.Overwrite.Record

/-! Pinned routes that outlive the store.

Every denom has a file name of its own, so the files of a persistent store hold one record for every
denom it pins routes for, however often these were replaced. Each record is read back as it was written
and has no faults on the pools it was checked against, so a new store over the same files pins the same
routes. -/
namespace SwapRouting
set_option autoImplicit false

/-! ## File names -/

theorem toList_eq_data (bs : ByteArray) : bs.toList = bs.data.toList := by
  have hloop : ∀ i r, ByteArray.toList.loop bs i r = r.reverse ++ bs.data.toList.drop i := by
    intro i r
    induction i, r using ByteArray.toList.loop.induct bs with
    | case1 i r h ih =>
      have hi : i < bs.data.toList.length := by simpa using h
      have hget : bs.get! i = bs.data.toList[i] := by
        rw [Array.getElem_toList]
        exact getElem!_pos bs.data i h
      rw [ByteArray.toList.loop, if_pos h, ih, hget, List.reverse_cons, List.append_assoc,
        List.drop_eq_getElem_cons hi]
      rfl
    | case2 i r h =>
      have hend : bs.data.toList.length ≤ i := by simpa using h
      rw [ByteArray.toList.loop, if_neg h, List.drop_eq_nil_of_le hend, List.append_nil]
  exact hloop 0 []

theorem toUTF8_toList_injective : Function.Injective fun s : String => s.toUTF8.toList := by
  intro a b h
  simp only [toList_eq_data, Array.toList_inj] at h
  exact String.toByteArray_inj.1 (ByteArray.ext h)

theorem byteDigits_injective : Function.Injective byteDigits := by
  intro a b h
  simp only [byteDigits, List.cons.injEq, and_true] at h
  have hlt : ∀ c : UInt8, c.toNat < 256 := fun c => c.toNat_lt
  have hread : ∀ m < 16, ∀ n < 16, Json.hexDigit m = Json.hexDigit n → m = n := by decide
  have ha := hlt a
  have hb := hlt b
  have hhigh := hread _ (by omega) _ (by omega) h.1
  have hlow := hread _ (by omega) _ (by omega) h.2
  exact UInt8.toNat_inj.1 (by omega)

theorem flatMap_byteDigits_injective : Function.Injective fun bs : List UInt8 => bs.flatMap byteDigits := by
  intro as bs h
  induction as generalizing bs with
  | nil =>
    cases bs with
    | nil => rfl
    | cons b r => cases h
  | cons a r ih =>
    cases bs with
    | nil => cases h
    | cons b r' =>
      simp only [List.flatMap_cons] at h
      obtain ⟨hhead, htail⟩ := List.append_inj h rfl
      rw [byteDigits_injective hhead, ih htail]

theorem overwriteFileName_injective : Function.Injective overwriteFileName := by
  intro a b h
  have hchars := congrArg String.toList h
  simp only [overwriteFileName, String.toList_append, String.toList_ofList] at hchars
  exact toUTF8_toList_injective (flatMap_byteDigits_injective (List.append_cancel_right hchars))

/-- Only the empty denom has a file that is passed over. -/
theorem isRecordFile_overwriteFileName {denom : Denom} (h : denom ≠ "") :
    isRecordFile (overwriteFileName denom) = true := by
  have hbytes : denom.toUTF8.toList ≠ [] := by
    intro hnil
    have hempty : ("" : String).toUTF8.toList = [] := ByteArray.toList_empty
    exact h (toUTF8_toList_injective (hnil.trans hempty.symm))
  have hname : (overwriteFileName denom).toList
      = denom.toUTF8.toList.flatMap byteDigits ++ ['.', 'j', 's', 'o', 'n'] := by
    simp [overwriteFileName]
  have hdigits : 0 < (denom.toUTF8.toList.flatMap byteDigits).length := by
    obtain ⟨b, r, hcons⟩ := List.exists_cons_of_ne_nil hbytes
    rw [hcons]
    exact Nat.succ_pos _
  rw [isRecordFile, hname, Bool.and_eq_true, decide_eq_true_eq, List.isSuffixOf_iff_suffix,
    List.length_append]
  exact ⟨List.suffix_append .., by omega⟩

/-! ## A store and its files -/

namespace OverwriteStore

variable {s : OverwriteStore} {snapshot : PoolSnapshot} {denomIn : Denom}

/-- The file for the routes pinned for a denom. -/
def fileOf (e : Denom × List CandidateRoute) : String × String :=
  (overwriteFileName e.1, OverwriteRecord.text ⟨e.1, e.2⟩)

/-- The files of a store; none where there is no directory yet. -/
def files (s : OverwriteStore) : Directory := s.directory.getD Dict.empty

/-- Whether the files of a store are those of the routes that it pins, which have no faults. -/
structure Persists (s : OverwriteStore) (snapshot : PoolSnapshot) : Prop where
  persistent : s.persistent = true
  pinnedOrder : s.pinned.Ascending
  filesOrder : s.files.Ascending
  files : s.files.entries.Perm (s.pinned.entries.map fileOf)
  valid : ∀ e ∈ s.pinned.entries, e.1 ≠ "" ∧ overwriteViolations snapshot e.1 e.2 = []

theorem persists_opened {directory : Option Directory} (h : directory.getD Dict.empty = Dict.empty)
    (snapshot : PoolSnapshot) : (opened true directory).Persists snapshot := by
  have hfiles : (opened true directory).files = Dict.empty := h
  refine ⟨rfl, List.Pairwise.nil, ?_, ?_, nofun⟩
  · rw [hfiles]
    exact List.Pairwise.nil
  · rw [hfiles]
    exact List.Perm.refl _

/-- A file that is written anew replaces the one of the routes pinned before, and no other. -/
theorem Persists.perm_files_insert (h : s.Persists snapshot) (denomIn : Denom) (routes : List CandidateRoute) :
    (s.files.insert (overwriteFileName denomIn) (OverwriteRecord.text ⟨denomIn, routes⟩)).entries.Perm
      ((s.pinned.insert denomIn routes).entries.map fileOf) := by
  have hothers : (s.files.erase (overwriteFileName denomIn)).entries.Perm
      ((s.pinned.erase denomIn).entries.map fileOf) := by
    have hkeys : (fun f : String × String => decide (f.1 ≠ overwriteFileName denomIn)) ∘ fileOf
        = fun e => decide (e.1 ≠ denomIn) := by
      funext e
      rw [Function.comp_apply, fileOf, decide_eq_decide, ne_eq, ne_eq,
        overwriteFileName_injective.eq_iff]
    have hfilter := h.files.filter fun f => decide (f.1 ≠ overwriteFileName denomIn)
    rw [List.filter_map, hkeys] at hfilter
    exact hfilter
  have hpinned := (h.pinnedOrder.perm_insert denomIn routes).map fileOf
  exact ((h.filesOrder.perm_insert _ _).trans (hothers.cons _)).trans hpinned.symm

theorem Persists.overwrite (h : s.Persists snapshot) (hdenom : denomIn ≠ "")
    (routes : List CandidateRoute) : (s.overwrite snapshot denomIn routes).2.Persists snapshot := by
  rw [OverwriteStore.overwrite]
  simp only [h.persistent, if_true]
  split
  · exact h
  · next hviolations =>
    have hnone : overwriteViolations snapshot denomIn routes = [] := by simpa using hviolations
    rw [write]
    by_cases hname : longestFileName < (overwriteFileName denomIn).utf8ByteSize
    -- the directory is there from now on, but no file in it is another one than before
    · simp only [if_pos hname]
      exact ⟨h.persistent, h.pinnedOrder, h.filesOrder, h.files, h.valid⟩
    · simp only [if_neg hname]
      refine ⟨h.persistent, h.pinnedOrder.insert _ _, h.filesOrder.insert _ _,
        h.perm_files_insert denomIn routes, ?_⟩
      intro e he
      rcases Dict.mem_insertEntry he with rfl | he
      · exact ⟨hdenom, hnone⟩
      · exact h.valid e he

/-- The store after these requests to pin routes against a snapshot, whether they are accepted or not. -/
def overwriteAll (s : OverwriteStore) (snapshot : PoolSnapshot)
    (requests : List (Denom × List CandidateRoute)) : OverwriteStore :=
  requests.foldl (fun s q => (s.overwrite snapshot q.1 q.2).2) s

theorem Persists.overwriteAll (h : s.Persists snapshot)
    {requests : List (Denom × List CandidateRoute)} (hdenoms : ∀ q ∈ requests, q.1 ≠ "") :
    (s.overwriteAll snapshot requests).Persists snapshot := by
  induction requests generalizing s with
  | nil => exact h
  | cons q rest ih =>
    obtain ⟨hq, hrest⟩ := List.forall_mem_cons.1 hdenoms
    exact ih (h.overwrite hq q.2) hrest

/-! ## Reading the files back -/

theorem ofText?_fileOf (hids : ∀ id p, snapshot.get? id = some p → id < 2 ^ 64)
    {e : Denom × List CandidateRoute} (h : overwriteViolations snapshot e.1 e.2 = []) :
    OverwriteRecord.ofText? (fileOf e).2 = some ⟨e.1, e.2⟩ := by
  refine OverwriteRecord.ofText?_text fun c hc id hid => ?_
  obtain ⟨p, hp⟩ := pools_of_no_violations h c hc id hid
  exact hids id p hp

/-- Files of routes without faults are all read, each one pins its routes. -/
theorem loadFiles_map_fileOf (hids : ∀ id p, snapshot.get? id = some p → id < 2 ^ 64)
    {entries : List (Denom × List CandidateRoute)}
    (h : ∀ e ∈ entries, overwriteViolations snapshot e.1 e.2 = []) (s : OverwriteStore) (loaded : Nat) :
    loadFiles snapshot s loaded (entries.map fileOf) = (.ok (loaded + entries.length),
      { s with pinned := entries.foldl (fun d e => d.insert e.1 e.2) s.pinned }) := by
  induction entries generalizing s loaded with
  | nil => rfl
  | cons e rest ih =>
    obtain ⟨he, hrest⟩ := List.forall_mem_cons.1 h
    have hread : OverwriteRecord.ofText? (OverwriteRecord.text ⟨e.1, e.2⟩) = some ⟨e.1, e.2⟩ :=
      ofText?_fileOf hids he
    rw [List.map_cons, fileOf, loadFiles, hread]
    simp only [he, List.isEmpty_nil, if_true]
    rw [ih hrest, List.length_cons, Nat.add_right_comm, Nat.add_assoc]
    rfl

theorem load_of_persistent (h : s.persistent = true) (snapshot : PoolSnapshot) :
    s.load snapshot = loadFiles snapshot s 0 (s.files.entries.filter fun f => isRecordFile f.1) := by
  rw [load, OverwriteStore.files, h]
  cases s.directory with
  | none => rfl
  | some files => rfl

/-- A new store over the files of another one, checked against the same pools, pins the same routes. -/
theorem Persists.load_reopened (h : s.Persists snapshot)
    (hids : ∀ id p, snapshot.get? id = some p → id < 2 ^ 64) :
    (s.reopened.load snapshot).1 = .ok s.size ∧
      ∀ denomIn denomOut, (s.reopened.load snapshot).2.get? denomIn denomOut
        = s.get? denomIn denomOut := by
  obtain ⟨entries, hfiles, hperm⟩ : Relation.Comp (· = List.map fileOf ·) List.Perm s.files.entries
      s.pinned.entries := by
    rw [List.eq_map_comp_perm]
    exact h.files
  have hvalid : ∀ e ∈ entries, e.1 ≠ "" ∧ overwriteViolations snapshot e.1 e.2 = [] :=
    fun e he => h.valid e (hperm.subset he)
  have hrecords : s.files.entries.filter (fun f => isRecordFile f.1) = entries.map fileOf := by
    rw [hfiles, List.filter_eq_self]
    intro f hf
    obtain ⟨e, he, rfl⟩ := List.mem_map.1 hf
    exact isRecordFile_overwriteFileName (hvalid e he).1
  have hload : s.reopened.load snapshot
      = (.ok s.size, { s.reopened with pinned := Dict.ofList entries }) := by
    have hpersistent : s.reopened.persistent = true := h.persistent
    rw [load_of_persistent hpersistent]
    have hsize : entries.length = s.size := hperm.length_eq
    have hrun := loadFiles_map_fileOf hids (fun e he => (hvalid e he).2) s.reopened 0
    rw [← hrecords, Nat.zero_add, hsize] at hrun
    exact hrun
  rw [hload]
  refine ⟨rfl, fun denomIn denomOut => ?_⟩
  rw [get?, get?, h.pinnedOrder.get?_ofList_of_perm hperm]

/-- Pinned routes outlive the store: whatever was asked of a store over an empty directory, a new store
over this directory loads as many overrides and gives the same routes for every pair of denoms. Pools
have identifiers of 64 bits. -/
theorem load_reopened_overwriteAll (snapshot : PoolSnapshot)
    (hids : ∀ id p, snapshot.get? id = some p → id < 2 ^ 64) (directory : Option Directory)
    (hempty : directory.getD Dict.empty = Dict.empty) (requests : List (Denom × List CandidateRoute))
    (hdenoms : ∀ q ∈ requests, q.1 ≠ "") :
    let s := (opened true directory).overwriteAll snapshot requests
    (s.reopened.load snapshot).1 = .ok s.size ∧
      ∀ denomIn denomOut, (s.reopened.load snapshot).2.get? denomIn denomOut
        = s.get? denomIn denomOut := by
  have hopened := persists_opened hempty snapshot
  have hrun := hopened.overwriteAll hdenoms
  exact hrun.load_reopened hids

/-- A denom of 126 bytes, too long for a file name. -/
def longDenom : Denom := String.ofList (List.replicate 126 'x')

def recordPool (id : Nat) (denoms : List Denom) : Pool :=
  PoolRecord.transmuter ⟨id, .constantProduct, denoms, [], Decimal.zero, 0⟩

def recordPools : PoolSnapshot :=
  PoolSnapshot.ofPools 1 [recordPool 1 ["ü/\x22", "b"], recordPool (2 ^ 64 - 1) ["b", "c", longDenom]]

/-- Two accepted overrides of which one is replaced, one without routes, one that cannot be written. -/
def recordRequests : List (Denom × List CandidateRoute) :=
  [("ü/\x22", [⟨[⟨1, "b"⟩]⟩]), ("b", [⟨[⟨2 ^ 64 - 1, "c"⟩]⟩]), ("c", []),
    (longDenom, [⟨[⟨2 ^ 64 - 1, "b"⟩]⟩]), ("ü/\x22", [⟨[⟨1, "b"⟩, ⟨2 ^ 64 - 1, "c"⟩]⟩])]

theorem recordRequests_load_reopened :
    let s := (opened true none).overwriteAll recordPools recordRequests
    (s.reopened.load recordPools).1 = .ok 2 ∧
      (s.reopened.load recordPools).2.get? "ü/\x22" "c" = some [⟨[⟨1, "b"⟩, ⟨2 ^ 64 - 1, "c"⟩]⟩] := by
  intro s
  have hids : ∀ id p, recordPools.get? id = some p → id < 2 ^ 64 := by
    intro id p hget
    have hall : ∀ e ∈ recordPools.pools.entries, e.1 < 2 ^ 64 := by decide +kernel
    exact hall _ (Dict.mem_entries_of_get?_eq_some hget)
  have hdenoms : ∀ q ∈ recordRequests, q.1 ≠ "" := by decide +kernel
  obtain ⟨hcount, hsame⟩ := load_reopened_overwriteAll recordPools hids none rfl recordRequests hdenoms
  have hsize : s.size = 2 := by decide +kernel
  have hget : s.get? "ü/\x22" "c" = some [⟨[⟨1, "b"⟩, ⟨2 ^ 64 - 1, "c"⟩]⟩] := by decide +kernel
  exact ⟨hcount.trans (congrArg Except.ok hsize), (hsame _ _).trans hget⟩

end OverwriteStore

end SwapRouting
