import Mathlib.Data.Finset.Card
import SwapRouting.Proofs.Cache

/-! A cache whose entries expire is a map with times, as far as its clock goes.

A call that is to store a value fails where the value would expire behind the last time of the clock, and
leaves the cache as it is. So only the calls that complete count. Whatever was stored and read before, a
key has the value that was stored last under it, until the time of this value is over. A read removes what
it finds expired and nothing else, so the entries that count are those that no read found expired since
they were stored. -/
namespace SwapRouting
set_option autoImplicit false

/-- A call of a cache, with the time that it reads off the clock. -/
inductive CacheCall (κ α : Type) where
  | insert (now ttl : Nat) (k : κ) (a : α)
  | get (now : Nat) (k : κ)

namespace CacheCall

variable {κ α : Type}

def time : CacheCall κ α → Nat
  | insert now _ _ _ => now
  | get now _ => now

/-- Whether the call stores a value under a key. -/
def Stores (c : CacheCall κ α) (k : κ) : Prop := ∃ now ttl a, c = insert now ttl k a

theorem stores_insert_iff {now ttl : Nat} {k k' : κ} {a : α} :
    (insert now ttl k a).Stores k' ↔ k = k' := by
  constructor
  · rintro ⟨_, _, _, h⟩
    injection h
  · rintro rfl
    exact ⟨now, ttl, a, rfl⟩

theorem not_stores_get {now : Nat} {k k' : κ} : ¬ (get now k : CacheCall κ α).Stores k' := by
  rintro ⟨_, _, _, h⟩
  cases h

/-- Whether the call completes by a clock that ends at `last`: what it stores expires by then. -/
def completes (last : Nat) : CacheCall κ α → Bool
  | insert now ttl _ _ => decide (now + ttl ≤ last)
  | get _ _ => true

/-- The calls that complete. -/
def completed (last : Nat) (calls : List (CacheCall κ α)) : List (CacheCall κ α) :=
  calls.filter (completes last)

theorem completed_concat_get (last : Nat) (calls : List (CacheCall κ α)) (now : Nat) (k : κ) :
    completed last (calls ++ [get now k]) = completed last calls ++ [get now k] := by
  rw [completed, List.filter_append]
  rfl

theorem completed_concat_insert (last : Nat) (calls : List (CacheCall κ α)) (now ttl : Nat) (k : κ)
    (a : α) : completed last (calls ++ [insert now ttl k a])
      = if now + ttl ≤ last then completed last calls ++ [insert now ttl k a] else completed last calls := by
  rw [completed, List.filter_append]
  split
  · next hle =>
    have hc : completes last (insert now ttl k a) = true := decide_eq_true hle
    rw [List.filter_cons_of_pos hc]
    rfl
  · next hnot =>
    have hc : ¬ completes last (insert now ttl k a) = true := mt of_decide_eq_true hnot
    rw [List.filter_cons_of_neg hc]
    exact List.append_nil _

end CacheCall

/-! ## What was stored last -/

section
variable {κ α : Type} {calls later : List (CacheCall κ α)} {c : CacheCall κ α} {k : κ}
variable {stored ttl : Nat} {a : α}

/-- The last of the calls that stores a value under a key, with the calls behind it. -/
structure LatestInsert (calls : List (CacheCall κ α)) (k : κ) (stored ttl : Nat) (a : α)
    (later : List (CacheCall κ α)) : Prop where
  split : ∃ earlier, calls = earlier ++ .insert stored ttl k a :: later
  last : ∀ c ∈ later, ¬ c.Stores k

/-- Whether no read among the calls finds an entry expired that expires at this time. -/
def Unexpired (calls : List (CacheCall κ α)) (k : κ) (expiresAt : Nat) : Prop :=
  ∀ now, .get now k ∈ calls → now < expiresAt

/-- Whether this is what was stored last under a key, and no later read found it expired. -/
def Remains (calls : List (CacheCall κ α)) (k : κ) (e : Timed α) : Prop :=
  ∃ stored ttl later, LatestInsert calls k stored ttl e.value later ∧ e.expiresAt = stored + ttl ∧
    Unexpired later k e.expiresAt

theorem not_latestInsert_nil : ¬ LatestInsert [] k stored ttl a later := by
  rintro ⟨⟨earlier, h⟩, -⟩
  simp at h

/-- One more call stores the value, or it is behind the one that did. -/
theorem latestInsert_concat_iff : LatestInsert (calls ++ [c]) k stored ttl a later ↔
    (later = [] ∧ c = .insert stored ttl k a) ∨
      ∃ rest, later = rest ++ [c] ∧ ¬ c.Stores k ∧ LatestInsert calls k stored ttl a rest := by
  constructor
  · rintro ⟨⟨earlier, hsplit⟩, hlast⟩
    rcases List.eq_nil_or_concat later with rfl | ⟨rest, x, rfl⟩
    · obtain ⟨-, hc⟩ := List.append_inj' hsplit rfl
      exact Or.inl ⟨rfl, List.singleton_inj.1 hc⟩
    · have hassoc : calls ++ [c] = (earlier ++ .insert stored ttl k a :: rest) ++ [x] := by
        simpa using hsplit
      obtain ⟨hcalls, hc⟩ := List.append_inj' hassoc rfl
      obtain rfl := List.singleton_inj.1 hc
      rw [List.concat_eq_append] at hlast ⊢
      obtain ⟨hrest, hlastc⟩ := List.forall_mem_append.1 hlast
      exact Or.inr ⟨rest, rfl, hlastc c (List.mem_singleton_self c), ⟨earlier, hcalls⟩, hrest⟩
  · rintro (⟨rfl, rfl⟩ | ⟨rest, rfl, hc, ⟨earlier, rfl⟩, hlast⟩)
    · exact ⟨⟨calls, rfl⟩, nofun⟩
    · refine ⟨⟨earlier, by simp⟩, List.forall_mem_append.2 ⟨hlast, fun x hx => ?_⟩⟩
      rw [List.mem_singleton.1 hx]
      exact hc

theorem not_remains_nil {e : Timed α} : ¬ Remains [] k e := by
  rintro ⟨stored, ttl, later, hlatest, -⟩
  exact not_latestInsert_nil hlatest

theorem unexpired_concat_get_iff {now expiresAt : Nat} {k' : κ} :
    Unexpired (calls ++ [.get now k']) k expiresAt ↔
      Unexpired calls k expiresAt ∧ (k' = k → now < expiresAt) := by
  constructor
  · intro h
    refine ⟨fun t ht => h t (List.mem_append_left _ ht), ?_⟩
    rintro rfl
    exact h now (by simp)
  · rintro ⟨hcalls, hnow⟩ t ht
    rcases List.mem_append.1 ht with ht | ht
    · exact hcalls t ht
    · rw [List.mem_singleton, CacheCall.get.injEq] at ht
      rw [ht.1]
      exact hnow ht.2.symm

theorem unexpired_concat_insert_iff {now expiresAt : Nat} {k' : κ} :
    Unexpired (calls ++ [.insert now ttl k' a]) k expiresAt ↔ Unexpired calls k expiresAt := by
  simp [Unexpired]

/-- A call that stores a value replaces what was stored under its key. -/
theorem remains_concat_insert_iff {now : Nat} {k' : κ} {e : Timed α} :
    Remains (calls ++ [.insert now ttl k' a]) k e ↔
      (k' = k ∧ e = ⟨a, now + ttl⟩) ∨ (k' ≠ k ∧ Remains calls k e) := by
  constructor
  · rintro ⟨stored, ttl', later, hlatest, hexpires, hunexpired⟩
    rcases latestInsert_concat_iff.1 hlatest with ⟨rfl, hc⟩ | ⟨rest, rfl, hstores, hrest⟩
    · injection hc with hnow httl hk ha
      subst hnow httl hk
      exact Or.inl ⟨rfl, by rw [ha, ← hexpires]⟩
    · rw [CacheCall.stores_insert_iff] at hstores
      exact Or.inr ⟨hstores, stored, ttl', rest, hrest, hexpires, unexpired_concat_insert_iff.1 hunexpired⟩
  · rintro (⟨rfl, rfl⟩ | ⟨hk, stored, ttl', rest, hrest, hexpires, hunexpired⟩)
    · exact ⟨now, ttl, [], latestInsert_concat_iff.2 (Or.inl ⟨rfl, rfl⟩), rfl, nofun⟩
    · exact ⟨stored, ttl', _, latestInsert_concat_iff.2 (Or.inr ⟨rest, rfl,
        mt CacheCall.stores_insert_iff.1 hk, hrest⟩), hexpires, unexpired_concat_insert_iff.2 hunexpired⟩

/-- A read removes what it finds expired. -/
theorem remains_concat_get_iff {now : Nat} {k' : κ} {e : Timed α} :
    Remains (calls ++ [.get now k']) k e ↔ Remains calls k e ∧ (k' = k → now < e.expiresAt) := by
  constructor
  · rintro ⟨stored, ttl', later, hlatest, hexpires, hunexpired⟩
    rcases latestInsert_concat_iff.1 hlatest with ⟨-, hc⟩ | ⟨rest, rfl, -, hrest⟩
    · cases hc
    · obtain ⟨hrun, hnow⟩ := unexpired_concat_get_iff.1 hunexpired
      exact ⟨⟨stored, ttl', rest, hrest, hexpires, hrun⟩, hnow⟩
  · rintro ⟨⟨stored, ttl', rest, hrest, hexpires, hrun⟩, hnow⟩
    exact ⟨stored, ttl', _, latestInsert_concat_iff.2 (Or.inr ⟨rest, rfl, CacheCall.not_stores_get, hrest⟩),
      hexpires, unexpired_concat_get_iff.2 ⟨hrun, hnow⟩⟩

end

/-! ## The entries after any calls -/

namespace ExpiringCache

open CacheCall (completed completed_concat_get completed_concat_insert)

variable {κ α : Type} [DecidableEq κ] {calls : List (CacheCall κ α)} {k : κ} {last now : Nat}

theorem insert?_eq_none_iff {c : ExpiringCache κ α} {stored ttl : Nat} {a : α} :
    c.insert? last stored ttl k a = none ↔ last < stored + ttl := by
  rw [insert?]
  split
  · next hle => exact iff_of_false nofun (Nat.not_lt.2 hle)
  · next hnot => exact iff_of_true rfl (Nat.lt_of_not_le hnot)

/-- The cache after a call; none if the call fails. -/
def perform? (last : Nat) (c : ExpiringCache κ α) : CacheCall κ α → Option (ExpiringCache κ α)
  | .insert now ttl k a => c.insert? last now ttl k a
  | .get now k => some (c.afterGet now k)

/-- The cache after these calls, empty at first. A call that fails leaves it as it is. -/
def run (last : Nat) (calls : List (CacheCall κ α)) : ExpiringCache κ α :=
  calls.foldl (fun c call => (c.perform? last call).getD c) empty

theorem run_concat (calls : List (CacheCall κ α)) (c : CacheCall κ α) :
    run last (calls ++ [c]) = ((run last calls).perform? last c).getD (run last calls) := by
  rw [run, List.foldl_append]
  rfl

theorem run_concat_get (calls : List (CacheCall κ α)) :
    run last (calls ++ [.get now k]) = (run last calls).afterGet now k := by
  rw [run_concat]
  rfl

theorem run_concat_insert (calls : List (CacheCall κ α)) (ttl : Nat) (a : α) :
    run last (calls ++ [.insert now ttl k a])
      = if now + ttl ≤ last then (run last calls).insert now ttl k a else run last calls := by
  rw [run_concat, perform?, insert?]
  split
  · rfl
  · rfl

/-- A read keeps exactly the entries that it does not find expired. -/
theorem entry?_afterGet_eq_some_iff {c : ExpiringCache κ α} {k' : κ} {e : Timed α} :
    entry? (c.afterGet now k') k = some e ↔ c.entry? k = some e ∧ (k' = k → now < e.expiresAt) := by
  rw [afterGet]
  cases hfound : c.entry? k' with
  | none =>
    refine ⟨fun h => ⟨h, ?_⟩, And.left⟩
    rintro rfl
    rw [hfound] at h
    cases h
  | some found =>
    by_cases hlt : now < found.expiresAt
    · simp only [if_pos hlt]
      refine ⟨fun h => ⟨h, ?_⟩, And.left⟩
      rintro rfl
      rw [hfound] at h
      cases h
      exact hlt
    · simp only [if_neg hlt, entry?_erase]
      by_cases hk : k' = k
      · subst hk
        rw [if_pos rfl, hfound]
        constructor
        · intro h
          cases h
        · rintro ⟨h, hnow⟩
          cases h
          exact absurd (hnow rfl) hlt
      · rw [if_neg hk]
        exact ⟨fun h => ⟨h, fun h' => absurd h' hk⟩, And.left⟩

/-- The entries of a cache are what was stored last under their keys and was not found expired since. -/
theorem entry?_run_eq_some_iff {e : Timed α} :
    entry? (run last calls) k = some e ↔ Remains (completed last calls) k e := by
  induction calls using List.reverseRecOn with
  | nil => exact iff_of_false nofun not_remains_nil
  | append_singleton calls c ih =>
    cases c with
    | insert now ttl k' a =>
      rw [run_concat_insert, completed_concat_insert]
      by_cases hlast : now + ttl ≤ last
      · rw [if_pos hlast, if_pos hlast, entry?_insert, remains_concat_insert_iff, ← ih]
        by_cases hk : k' = k
        · rw [if_pos hk, Option.some.injEq, eq_comm]
          simp [hk]
        · rw [if_neg hk]
          simp [hk]
      · rw [if_neg hlast, if_neg hlast, ih]
    | get now k' =>
      rw [run_concat_get, completed_concat_get, entry?_afterGet_eq_some_iff, remains_concat_get_iff, ih]

/-! ## How many entries there are -/

/-- Whether no key has two entries. -/
def Keyed (c : ExpiringCache κ α) : Prop := (c.entries.map Prod.fst).Nodup

theorem mem_keys_iff {c : ExpiringCache κ α} : k ∈ c.entries.map Prod.fst ↔ ∃ e, c.entry? k = some e := by
  rw [List.mem_map]
  constructor
  · rintro ⟨e, he, rfl⟩
    have hfind : (c.entries.find? fun x => decide (x.1 = e.1)).isSome :=
      List.find?_isSome.2 ⟨e, he, decide_eq_true rfl⟩
    obtain ⟨x, hx⟩ := Option.isSome_iff_exists.1 hfind
    have hentry : c.entry? e.1 = some x.2 := by
      unfold entry?
      rw [hx]
      rfl
    exact ⟨x.2, hentry⟩
  · rintro ⟨e, he⟩
    obtain ⟨x, hx, -⟩ := Option.map_eq_some_iff.1 he
    exact ⟨x, List.mem_of_find?_eq_some hx, by simpa using List.find?_some hx⟩

theorem Keyed.erase {c : ExpiringCache κ α} (h : c.Keyed) (k : κ) : (c.erase k).Keyed :=
  h.sublist (List.filter_sublist.map Prod.fst)

theorem Keyed.insert {c : ExpiringCache κ α} (h : c.Keyed) (now ttl : Nat) (k : κ) (a : α) :
    (c.insert now ttl k a).Keyed := by
  refine List.nodup_cons.2 ⟨?_, h.erase k⟩
  rw [mem_keys_iff, entry?_erase, if_pos rfl]
  exact nofun

theorem Keyed.afterGet {c : ExpiringCache κ α} (h : c.Keyed) (now : Nat) (k : κ) :
    (c.afterGet now k).Keyed := by
  rcases afterGet_cases c now k with hsame | ⟨herase, -⟩
  · rw [hsame]
    exact h
  · rw [herase]
    exact h.erase k

theorem keyed_run (last : Nat) (calls : List (CacheCall κ α)) : (run last calls).Keyed := by
  induction calls using List.reverseRecOn with
  | nil => exact List.nodup_nil
  | append_singleton calls c ih =>
    cases c with
    | insert now ttl k a =>
      rw [run_concat_insert]
      split
      · exact ih.insert now ttl k a
      · exact ih
    | get now k =>
      rw [run_concat_get]
      exact ih.afterGet now k

theorem Keyed.card_keys {c : ExpiringCache κ α} (h : c.Keyed) :
    (c.entries.map Prod.fst).toFinset.card = c.size := by
  rw [List.toFinset_card_of_nodup h, List.length_map]
  rfl

/-! ## The promise -/

/-- What a cache promises after any calls, at a time that is not before them, by a clock that ends at
`last`. -/
structure IsTimedMap (last : Nat) (calls : List (CacheCall κ α)) (now : Nat) : Prop where
  /-- A value is stored exactly if it expires by the last time of the clock. -/
  stores : ∀ stored ttl k a, (run last calls).insert? last stored ttl k a = none ↔ last < stored + ttl
  /-- A key has the value stored last under it, while the time of this value is not over. -/
  finds : ∀ k a, (run last calls).get? now k = some a ↔
    ∃ stored ttl later, LatestInsert (completed last calls) k stored ttl a later ∧ now < stored + ttl
  /-- A read leaves the entries of other keys and those that are not expired. -/
  keeps : ∀ k k' e, entry? (run last calls) k' = some e → k ≠ k' ∨ now < e.expiresAt →
    entry? ((run last calls).afterGet now k) k' = some e
  /-- The entries that count are those that no read found expired since they were stored. -/
  counts : ∃ keys : Finset κ, (∀ k, k ∈ keys ↔ ∃ e, Remains (completed last calls) k e) ∧
    (run last calls).size = keys.card

theorem isTimedMap_of_time_le (last : Nat) (hclock : ∀ c ∈ calls, c.time ≤ now) :
    IsTimedMap last calls now := by
  refine ⟨fun _ _ _ _ => insert?_eq_none_iff, fun k a => ?_, fun k k' e he hkeep => ?_,
    ((run last calls).entries.map Prod.fst).toFinset, fun k => ?_, (keyed_run last calls).card_keys.symm⟩
  · rw [get?_eq_some_iff]
    constructor
    · rintro ⟨e, he, hlt, rfl⟩
      obtain ⟨stored, ttl, later, hlatest, hexpires, -⟩ := entry?_run_eq_some_iff.1 he
      exact ⟨stored, ttl, later, hlatest, hexpires ▸ hlt⟩
    · rintro ⟨stored, ttl, later, hlatest, hlt⟩
      refine ⟨⟨a, stored + ttl⟩, entry?_run_eq_some_iff.2 ⟨stored, ttl, later, hlatest, rfl, ?_⟩, hlt, rfl⟩
      -- no read was later than now, so none found the value expired
      intro t ht
      obtain ⟨earlier, hsplit⟩ := hlatest.split
      have hread : .get t k ∈ completed last calls := by simp [hsplit, ht]
      have hle : t ≤ now := hclock (.get t k) (List.mem_of_mem_filter hread)
      exact hle.trans_lt hlt
  · refine entry?_afterGet_eq_some_iff.2 ⟨he, fun hk => ?_⟩
    exact hkeep.resolve_left (not_not_intro hk)
  · rw [List.mem_toFinset, mem_keys_iff]
    simp only [entry?_run_eq_some_iff]

/-- A value without time, which a read removes, then another one under its key, and last a value that
would outlive the clock. -/
def twoKeyCalls : List (CacheCall String Nat) :=
  [.insert 0 5 "a" 1, .insert 0 0 "b" 2, .get 0 "b", .insert 3 4 "b" 7, .get 6 "a", .insert 6 95 "b" 8,
    .get 6 "b"]

theorem twoKeyCalls_isTimedMap :
    (∀ c ∈ twoKeyCalls, c.time ≤ 6) ∧ IsTimedMap 100 twoKeyCalls 6 ∧
      (run 100 twoKeyCalls).get? 6 "a" = none ∧ (run 100 twoKeyCalls).get? 6 "b" = some 7 ∧
      (run 100 twoKeyCalls).size = 1 := by
  have hclock : ∀ c ∈ twoKeyCalls, c.time ≤ 6 := by decide
  exact ⟨hclock, isTimedMap_of_time_le 100 hclock, by decide, by decide, by decide⟩

/-- One value, stored for the most seconds that a word of 64 bits holds. -/
def endlessCall : CacheCall String Nat := .insert 0 18446744073709551615 "a" 1

/-- The call fails, and its value is missing although it is the last one and its time is not over. -/
theorem endlessCall_loses :
    (empty : ExpiringCache String Nat).perform? lastSecond endlessCall = none ∧
      LatestInsert [endlessCall] "a" 0 18446744073709551615 1 [] ∧
      0 < 0 + 18446744073709551615 ∧ (run lastSecond [endlessCall]).get? 0 "a" = none ∧
      Remains [endlessCall] "a" ⟨1, 18446744073709551615⟩ ∧ (run lastSecond [endlessCall]).size = 0 := by
  have hlatest : LatestInsert [endlessCall] "a" 0 18446744073709551615 1 [] := ⟨⟨[], rfl⟩, nofun⟩
  exact ⟨by decide, hlatest, by decide, by decide,
    ⟨0, 18446744073709551615, [], hlatest, rfl, nofun⟩, by decide⟩

end ExpiringCache

end SwapRouting
