import SwapRouting.Dict
import Mathlib.Data.List.Basic
import Mathlib.Data.List.Sort
import Mathlib.Data.Nat.Basic
import Mathlib.Order.RelClasses

/-! Lookups in dictionaries.

An inserted value is found under its key and hides nothing else, whether or not the entries are in
order. Every entry of a dictionary was inserted under its key, and where keys are in a total order every
value is found under the key it was inserted for. -/
namespace SwapRouting
set_option autoImplicit false

namespace Dict

variable {κ α : Type} [DecidableEq κ]

theorem mem_entries_of_get?_eq_some {d : Dict κ α} {k : κ} {a : α} (h : d.get? k = some a) :
    (k, a) ∈ d.entries := by
  obtain ⟨e, he, ha⟩ := Option.map_eq_some_iff.1 h
  have hkey : e.1 = k := by simpa using List.find?_some he
  rw [← hkey, ← ha]
  exact List.mem_of_find?_eq_some he

theorem get?_cons (e : κ × α) (r : List (κ × α)) (k : κ) :
    (⟨e :: r⟩ : Dict κ α).get? k = if e.1 = k then some e.2 else (⟨r⟩ : Dict κ α).get? k := by
  by_cases h : e.1 = k
  · simp [get?, h]
  · simp [get?, h]

variable [LT κ] [DecidableLT κ]

theorem get?_insertEntry (k k' : κ) (a : α) (es : List (κ × α)) :
    (⟨insertEntry k a es⟩ : Dict κ α).get? k'
      = if k = k' then some a else (⟨es⟩ : Dict κ α).get? k' := by
  induction es with
  | nil => rw [insertEntry, get?_cons]
  | cons e r ih =>
    rw [insertEntry]
    split
    · rw [get?_cons]
    · split
      · next hkey =>
        rw [get?_cons, get?_cons]
        by_cases h : k = k'
        · rw [if_pos h, if_pos h]
        · rw [if_neg h, if_neg h, if_neg (hkey ▸ h)]
      · next hkey =>
        rw [get?_cons, ih, get?_cons]
        by_cases h : k = k'
        · rw [if_pos h, if_pos h, if_neg fun he => hkey (h.trans he.symm)]
        · rw [if_neg h, if_neg h]

theorem get?_insert (d : Dict κ α) (k k' : κ) (a : α) :
    (d.insert k a).get? k' = if k = k' then some a else d.get? k' :=
  get?_insertEntry k k' a d.entries

theorem mem_insertEntry {k : κ} {a : α} {es : List (κ × α)} {e : κ × α}
    (h : e ∈ insertEntry k a es) : e = (k, a) ∨ e ∈ es := by
  induction es with
  | nil => exact Or.inl (List.mem_singleton.1 h)
  | cons x r ih =>
    rw [insertEntry] at h
    split at h
    · exact List.mem_cons.1 h
    · split at h
      · rcases List.mem_cons.1 h with h | h
        · exact Or.inl h
        · exact Or.inr (List.mem_cons_of_mem _ h)
      · rcases List.mem_cons.1 h with rfl | h
        · exact Or.inr (List.mem_cons_self ..)
        · rcases ih h with h | h
          · exact Or.inl h
          · exact Or.inr (List.mem_cons_of_mem _ h)

theorem mem_entries_foldl_insert {es : List (κ × α)} {d : Dict κ α} {e : κ × α}
    (h : e ∈ (es.foldl (fun d e => d.insert e.1 e.2) d).entries) : e ∈ d.entries ∨ e ∈ es := by
  induction es generalizing d with
  | nil => exact Or.inl h
  | cons x r ih =>
    rcases ih h with h | h
    · rcases mem_insertEntry h with rfl | h
      · exact Or.inr (List.mem_cons_self ..)
      · exact Or.inl h
    · exact Or.inr (List.mem_cons_of_mem _ h)

/-- What is inserted hides what was there before. -/
theorem get?_foldl_insert (es : List (κ × α)) (d : Dict κ α) (k : κ) :
    (es.foldl (fun d e => d.insert e.1 e.2) d).get? k = ((ofList es).get? k).or (d.get? k) := by
  induction es generalizing d with
  | nil => rfl
  | cons x r ih =>
    rw [ofList, List.foldl_cons, List.foldl_cons, ih, ih, get?_insert, get?_insert]
    by_cases h : x.1 = k
    · rw [if_pos h, if_pos h, Option.or_assoc]
      rfl
    · rw [if_neg h, if_neg h, Option.or_assoc]
      rfl

theorem mem_of_get?_ofList_eq_some {es : List (κ × α)} {k : κ} {a : α}
    (h : (ofList es).get? k = some a) : (k, a) ∈ es := by
  rcases mem_entries_foldl_insert (mem_entries_of_get?_eq_some h) with h | h
  · cases h
  · exact h

theorem get?_foldl_insert_eq_none_iff {es : List (κ × α)} {d : Dict κ α} {k : κ} :
    (es.foldl (fun d e => d.insert e.1 e.2) d).get? k = none
      ↔ d.get? k = none ∧ ∀ e ∈ es, e.1 ≠ k := by
  induction es generalizing d with
  | nil => simp
  | cons x r ih =>
    rw [List.foldl_cons, ih, get?_insert, List.forall_mem_cons]
    by_cases h : x.1 = k
    · simp [h]
    · simp [h]

theorem get?_ofList_eq_none_iff {es : List (κ × α)} {k : κ} :
    (ofList es).get? k = none ↔ ∀ e ∈ es, e.1 ≠ k := by
  rw [ofList, get?_foldl_insert_eq_none_iff]
  exact ⟨fun h => h.2, fun h => ⟨rfl, h⟩⟩

theorem get?_ofList_eq_some_iff {es : List (κ × α)} (hkeys : (es.map Prod.fst).Nodup) {k : κ} {a : α} :
    (ofList es).get? k = some a ↔ (k, a) ∈ es := by
  constructor
  · exact mem_of_get?_ofList_eq_some
  · intro hmem
    cases hget : (ofList es).get? k with
    | none => exact absurd rfl (get?_ofList_eq_none_iff.1 hget _ hmem)
    | some b =>
      have hentry := mem_of_get?_ofList_eq_some hget
      have hsame := List.inj_on_of_nodup_map hkeys hentry hmem rfl
      rw [Prod.mk.injEq] at hsame
      rw [hsame.2]

/-- A dictionary that is filled by a function of the keys. -/
theorem get?_ofList_map (keys : List κ) (f : κ → α) (k : κ) :
    (ofList (keys.map fun k => (k, f k))).get? k = if k ∈ keys then some (f k) else none := by
  split
  · next hk =>
    cases hget : (ofList (keys.map fun k => (k, f k))).get? k with
    | none =>
      rw [get?_ofList_eq_none_iff] at hget
      exact absurd rfl (hget (k, f k) (List.mem_map_of_mem hk))
    | some a =>
      obtain ⟨x, -, hx⟩ := List.mem_map.1 (mem_of_get?_ofList_eq_some hget)
      rw [Prod.mk.injEq] at hx
      rw [← hx.2, hx.1]
  · next hk =>
    rw [get?_ofList_eq_none_iff]
    intro e he hkey
    obtain ⟨x, hx, rfl⟩ := List.mem_map.1 he
    exact hk (hkey ▸ hx)

omit [LT κ] [DecidableLT κ] in
theorem get?_map {β : Type} (f : α → β) (d : Dict κ α) (k : κ) :
    (d.map f).get? k = (d.get? k).map f := by
  obtain ⟨es⟩ := d
  induction es with
  | nil => rfl
  | cons e r ih =>
    have hmap : (⟨e :: r⟩ : Dict κ α).map f = ⟨(e.1, f e.2) :: (map f ⟨r⟩).entries⟩ := rfl
    rw [hmap, get?_cons, get?_cons, ih]
    split
    · rfl
    · rfl

/-! ## Keys in order -/

/-- Whether the keys ascend, as those of every dictionary built by `insert` do. -/
def Ascending (d : Dict κ α) : Prop := d.entries.Pairwise fun a b => a.1 < b.1

variable [IsStrictTotalOrder κ (· < ·)]

theorem Ascending.insert {d : Dict κ α} (h : d.Ascending) (k : κ) (a : α) :
    (d.insert k a).Ascending := by
  obtain ⟨es⟩ := d
  show (insertEntry k a es).Pairwise _
  induction es with
  | nil => exact List.pairwise_singleton _ _
  | cons e r ih =>
    obtain ⟨hhead, htail⟩ := List.pairwise_cons.1 h
    rw [insertEntry]
    split
    · next hlt =>
      refine List.pairwise_cons.2 ⟨?_, h⟩
      intro x hx
      rcases List.mem_cons.1 hx with rfl | hx
      · exact hlt
      · exact IsTrans.trans _ _ _ hlt (hhead x hx)
    · next hlt =>
      split
      · next hkey => exact List.pairwise_cons.2 ⟨fun x hx => hkey ▸ hhead x hx, htail⟩
      · next hkey =>
        refine List.pairwise_cons.2 ⟨?_, ih htail⟩
        intro x hx
        rcases mem_insertEntry hx with rfl | hx
        · exact ((trichotomous_of (· < ·) k e.1).resolve_left hlt).resolve_left hkey
        · exact hhead x hx

theorem Ascending.foldl_insert {d : Dict κ α} (h : d.Ascending) (es : List (κ × α)) :
    (es.foldl (fun d e => d.insert e.1 e.2) d).Ascending := by
  induction es generalizing d with
  | nil => exact h
  | cons e r ih => exact ih (h.insert e.1 e.2)

theorem ascending_ofList (es : List (κ × α)) : (ofList es).Ascending :=
  Ascending.foldl_insert List.Pairwise.nil es

omit [DecidableLT κ] in
/-- Where keys ascend no entry hides another one. -/
theorem Ascending.get?_of_mem {d : Dict κ α} (h : d.Ascending) {k : κ} {a : α}
    (hmem : (k, a) ∈ d.entries) : d.get? k = some a := by
  obtain ⟨es⟩ := d
  induction es with
  | nil => cases hmem
  | cons e r ih =>
    obtain ⟨hhead, htail⟩ := List.pairwise_cons.1 h
    rw [get?_cons]
    rcases List.mem_cons.1 hmem with rfl | hmem
    · exact if_pos rfl
    · have hlt : e.1 < k := hhead _ hmem
      have hne : e.1 ≠ k := fun hkey => irrefl_of (· < ·) k (hkey ▸ hlt)
      rw [if_neg hne]
      exact ih htail hmem

omit [DecidableLT κ] in
theorem Ascending.mem_values_iff {d : Dict κ α} (h : d.Ascending) {a : α} :
    a ∈ d.values ↔ ∃ k, d.get? k = some a := by
  constructor
  · intro ha
    obtain ⟨e, he, rfl⟩ := List.mem_map.1 ha
    exact ⟨e.1, h.get?_of_mem he⟩
  · rintro ⟨k, hk⟩
    exact List.mem_map.2 ⟨(k, a), mem_entries_of_get?_eq_some hk, rfl⟩

/-- Inserting adds an entry in front of those with other keys, up to the order. -/
theorem Ascending.perm_insert {d : Dict κ α} (h : d.Ascending) (k : κ) (a : α) :
    (d.insert k a).entries.Perm ((k, a) :: (d.erase k).entries) := by
  obtain ⟨es⟩ := d
  show (insertEntry k a es).Perm ((k, a) :: es.filter fun e => decide (e.1 ≠ k))
  have hkeep : ∀ es : List (κ × α), (∀ e ∈ es, k < e.1) →
      (es.filter fun e => decide (e.1 ≠ k)) = es := by
    intro es habove
    rw [List.filter_eq_self]
    intro e he
    have hne : e.1 ≠ k := fun hkey => irrefl_of (· < ·) k (hkey ▸ habove e he)
    exact decide_eq_true hne
  induction es with
  | nil => exact List.Perm.refl _
  | cons e r ih =>
    obtain ⟨hhead, htail⟩ := List.pairwise_cons.1 h
    rw [insertEntry]
    split
    · next hlt =>
      rw [hkeep (e :: r)]
      intro x hx
      rcases List.mem_cons.1 hx with rfl | hx
      · exact hlt
      · exact IsTrans.trans _ _ _ hlt (hhead x hx)
    · split
      · next hkey =>
        rw [List.filter_cons_of_neg (by simp [hkey]), hkeep r fun x hx => hkey ▸ hhead x hx]
      · next hkey =>
        rw [List.filter_cons_of_pos (by simpa using Ne.symm hkey)]
        exact ((ih htail).cons e).trans (List.Perm.swap _ _ _)

/-- A dictionary that is filled with the entries of another one, in any order. -/
theorem Ascending.get?_ofList_of_perm {d : Dict κ α} (h : d.Ascending) {es : List (κ × α)}
    (hperm : es.Perm d.entries) (k : κ) : (ofList es).get? k = d.get? k := by
  cases hget : (ofList es).get? k with
  | some a =>
    have hmem : (k, a) ∈ d.entries := hperm.subset (mem_of_get?_ofList_eq_some hget)
    exact (h.get?_of_mem hmem).symm
  | none =>
    cases hd : d.get? k with
    | none => rfl
    | some a =>
      have hmem := hperm.symm.subset (mem_entries_of_get?_eq_some hd)
      exact absurd rfl (get?_ofList_eq_none_iff.1 hget (k, a) hmem)

/-! ## Entries in another order -/

omit [DecidableLT κ] in
/-- A dictionary in order is known by its lookups. -/
theorem Ascending.eq_of_get? {d d' : Dict κ α} (h : d.Ascending) (h' : d'.Ascending)
    (hget : ∀ k, d.get? k = d'.get? k) : d = d' := by
  obtain ⟨es⟩ := d
  obtain ⟨es'⟩ := d'
  have hirrefl : Std.Irrefl fun a b : κ × α => a.1 < b.1 := ⟨fun a => irrefl_of (· < ·) a.1⟩
  have hasymm : Std.Antisymm fun a b : κ × α => a.1 < b.1 :=
    ⟨fun a b hab hba => absurd hba (asymm_of (· < ·) hab)⟩
  have hmem : ∀ e, e ∈ es ↔ e ∈ es' := by
    intro e
    constructor
    · intro he
      exact mem_entries_of_get?_eq_some ((hget e.1).symm.trans (h.get?_of_mem he))
    · intro he
      exact mem_entries_of_get?_eq_some ((hget e.1).trans (h'.get?_of_mem he))
  exact congrArg Dict.mk (List.Pairwise.eq_of_mem_iff h h' hmem)

theorem ofList_eq_of_perm {es es' : List (κ × α)} (hperm : es.Perm es')
    (hkeys : (es.map Prod.fst).Nodup) : ofList es = ofList es' := by
  refine (ascending_ofList es).eq_of_get? (ascending_ofList es') fun k => ?_
  have hkeys' : (es'.map Prod.fst).Nodup := (hperm.map Prod.fst).nodup_iff.1 hkeys
  ext a
  rw [get?_ofList_eq_some_iff hkeys, get?_ofList_eq_some_iff hkeys', hperm.mem_iff]

end Dict

end SwapRouting
