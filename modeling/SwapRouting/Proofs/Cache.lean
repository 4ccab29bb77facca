import SwapRouting.Cache.Routes
import SwapRouting.Proofs.Candidate
import SwapRouting.Proofs.TakerFee

/-! What cached routes satisfy.

Reading a cache only removes what has expired, and storing changes one key. So routes come out of a
cache as they went in: candidates lead to the other denom of their pair, seen from either side, and
ranked routes to the denom of their key, with no pool twice. -/
namespace SwapRouting
set_option autoImplicit false

/-! ## Expiring entries -/

namespace ExpiringCache

variable {κ α : Type} [DecidableEq κ]

theorem entry?_erase (c : ExpiringCache κ α) (k k' : κ) :
    entry? (c.erase k) k' = if k = k' then none else c.entry? k' := by
  unfold entry? erase
  rw [List.find?_filter]
  by_cases h : k = k'
  · rw [if_pos h]
    simp [h]
  · rw [if_neg h]
    congr 2
    funext e
    by_cases he : e.1 = k'
    · simp [he, Ne.symm h]
    · simp [he]

theorem entry?_insert (c : ExpiringCache κ α) (now ttl : Nat) (k k' : κ) (a : α) :
    entry? (c.insert now ttl k a) k' = if k = k' then some ⟨a, now + ttl⟩ else c.entry? k' := by
  by_cases h : k = k'
  · simp [insert, entry?, h]
  · have herase := entry?_erase c k k'
    rw [if_neg h] at herase ⊢
    rw [← herase]
    simp [insert, entry?, h]

theorem get?_eq_some_iff {c : ExpiringCache κ α} {now : Nat} {k : κ} {a : α} :
    c.get? now k = some a ↔ ∃ e, c.entry? k = some e ∧ now < e.expiresAt ∧ e.value = a := by
  rw [get?, Option.bind_eq_some_iff]
  constructor
  · rintro ⟨e, he, hif⟩
    split at hif
    · next hlt => exact ⟨e, he, hlt, Option.some.inj hif⟩
    · cases hif
  · rintro ⟨e, he, hlt, rfl⟩
    exact ⟨e, he, if_pos hlt⟩

theorem afterGet_cases (c : ExpiringCache κ α) (now : Nat) (k : κ) :
    c.afterGet now k = c ∨
      c.afterGet now k = c.erase k ∧ ∃ e, c.entry? k = some e ∧ e.expiresAt ≤ now := by
  rw [afterGet]
  split
  · next e he =>
    split
    · exact Or.inl rfl
    · next hlt => exact Or.inr ⟨rfl, e, he, Nat.le_of_not_lt hlt⟩
  · exact Or.inl rfl

theorem entry?_afterGet {c : ExpiringCache κ α} {now : Nat} {k k' : κ} {e : Timed α}
    (h : entry? (c.afterGet now k) k' = some e) : c.entry? k' = some e := by
  rcases afterGet_cases c now k with hsame | ⟨herase, -⟩
  · rw [hsame] at h
    exact h
  · rw [herase, entry?_erase] at h
    split at h
    · cases h
    · exact h

/-- Reading hides nothing from later readers. -/
theorem get?_afterGet (c : ExpiringCache κ α) {now later : Nat} (h : now ≤ later) (k k' : κ) :
    (c.afterGet now k).get? later k' = c.get? later k' := by
  rcases afterGet_cases c now k with hsame | ⟨herase, e, he, hexpired⟩
  · rw [hsame]
  · rw [herase, get?, get?, entry?_erase]
    by_cases hk : k = k'
    · rw [if_pos hk, ← hk, he]
      simp only [Option.bind_none, Option.bind_some]
      rw [if_neg (by omega)]
    · rw [if_neg hk]

theorem get?_insert (c : ExpiringCache κ α) (now ttl later : Nat) (k k' : κ) (a : α) :
    (c.insert now ttl k a).get? later k'
      = if k = k' then (if later < now + ttl then some a else none) else c.get? later k' := by
  rw [get?, entry?_insert]
  split
  · rfl
  · rfl

/-- Whether every entry that is there at time `now` is still there at time `later`. -/
def Keeps (c : ExpiringCache κ α) (now later : Nat) : Prop :=
  ∀ k e, c.entry? k = some e → now < e.expiresAt → later < e.expiresAt

theorem Keeps.get? {c : ExpiringCache κ α} {now later : Nat} (h : c.Keeps now later)
    (hle : now ≤ later) (k : κ) : c.get? later k = c.get? now k := by
  rw [ExpiringCache.get?, ExpiringCache.get?]
  cases he : c.entry? k with
  | none => rfl
  | some e =>
    simp only [Option.bind_some]
    by_cases hnow : now < e.expiresAt
    · rw [if_pos hnow, if_pos (h k e he hnow)]
    · rw [if_neg hnow, if_neg (by omega)]

theorem keeps_of_entries {c : ExpiringCache κ α} {later : Nat}
    (h : ∀ e ∈ c.entries, later < e.2.expiresAt) (now : Nat) : c.Keeps now later := by
  intro k t ht _
  obtain ⟨e, he, hvalue⟩ := Option.map_eq_some_iff.1 ht
  rw [← hvalue]
  exact h e (List.mem_of_find?_eq_some he)

/-- Whether every entry satisfies what is said of its key. -/
def All (c : ExpiringCache κ α) (P : κ → α → Prop) : Prop :=
  ∀ k e, c.entry? k = some e → P k e.value

variable {c : ExpiringCache κ α} {P : κ → α → Prop}

theorem all_empty : (empty : ExpiringCache κ α).All P := by
  intro k e h
  cases h

theorem All.insert (h : c.All P) {k : κ} {a : α} (ha : P k a) (now ttl : Nat) :
    (c.insert now ttl k a).All P := by
  intro k' e he
  rw [entry?_insert] at he
  split at he
  · next hk =>
    rw [Option.some.injEq] at he
    rw [← hk, ← he]
    exact ha
  · exact h k' e he

theorem All.afterGet (h : c.All P) (now : Nat) (k : κ) : (c.afterGet now k).All P :=
  fun k' e he => h k' e (entry?_afterGet he)

theorem All.get? (h : c.All P) {now : Nat} {k : κ} {a : α} (ha : c.get? now k = some a) :
    P k a := by
  obtain ⟨e, he, -, rfl⟩ := get?_eq_some_iff.1 ha
  exact h k e he

end ExpiringCache

/-! ## Stored routes -/

/-- What the candidates stored for a pair satisfy: they lead from one of its denoms to the other. -/
def StoredCandidates.Fits (pair : DenomPair) (s : StoredCandidates) : Prop :=
  ∃ other, pair = DenomPair.of s.origin other ∧ s.origin ≠ other ∧ LeadTo other s.routes.routes

theorem StoredCandidates.Fits.seenFrom {denomIn denomOut : Denom} {s : StoredCandidates}
    (h : s.Fits (DenomPair.of denomIn denomOut)) : LeadTo denomOut (s.seenFrom denomIn).routes := by
  obtain ⟨other, hpair, hne, hlead⟩ := h
  rw [StoredCandidates.seenFrom]
  rcases DenomPair.of_inj hpair with ⟨hin, hout⟩ | ⟨hin, hout⟩
  · rw [if_pos hin.symm, hout]
    exact hlead
  · rw [if_neg fun horigin => hne (horigin.trans hin), hout]
    exact hlead.reversed s.origin

namespace RouteCaches

/-- Whether nothing expires in either cache between two times. -/
structure Keeps (c : RouteCaches) (now later : Nat) : Prop where
  candidates : c.candidates.Keeps now later
  ranked : c.ranked.Keeps now later

/-- What both caches satisfy at any time. -/
structure Sound (c : RouteCaches) : Prop where
  candidates : c.candidates.All fun pair s => s.Fits pair
  ranked : c.ranked.All fun key routes => Apart key.denomOut routes

theorem sound_empty : empty.Sound := ⟨ExpiringCache.all_empty, ExpiringCache.all_empty⟩

variable {c : RouteCaches}

theorem Sound.afterCandidates (h : c.Sound) (now : Nat) (denomIn denomOut : Denom) :
    (c.afterCandidates now denomIn denomOut).Sound :=
  ⟨h.candidates.afterGet now _, h.ranked⟩

theorem Sound.afterRanked (h : c.Sound) (p : CachePolicy) (now : Nat) (k : RankedKey) :
    (c.afterRanked p now k).Sound := by
  rw [RouteCaches.afterRanked]
  split
  · exact ⟨h.candidates, h.ranked.afterGet now k⟩
  · exact h

theorem Sound.setCandidates (h : c.Sound) (p : CachePolicy) (now : Nat) {denomIn denomOut : Denom}
    {routes : CandidateRoutes} (hne : denomIn ≠ denomOut) (hroutes : LeadTo denomOut routes.routes) :
    (c.setCandidates p now denomIn denomOut routes).Sound := by
  have hfits : StoredCandidates.Fits (DenomPair.of denomIn denomOut) ⟨denomIn, routes⟩ :=
    ⟨denomOut, rfl, hne, hroutes⟩
  exact ⟨h.candidates.insert hfits now p.candidateTime, h.ranked⟩

theorem Sound.setRanked (h : c.Sound) (p : CachePolicy) (now : Nat) {k : RankedKey}
    {routes : List CandidateRoute} (hroutes : Apart k.denomOut routes) :
    (c.setRanked p now k routes).Sound := by
  rw [RouteCaches.setRanked]
  split
  · exact ⟨h.candidates, h.ranked.insert hroutes _ _⟩
  · exact h

theorem Sound.candidates? (h : c.Sound) {now : Nat} {denomIn denomOut : Denom}
    {routes : CandidateRoutes} (hget : c.candidates? now denomIn denomOut = some routes) :
    LeadTo denomOut routes.routes := by
  obtain ⟨s, hs, rfl⟩ := Option.map_eq_some_iff.1 hget
  exact (h.candidates.get? hs).seenFrom

theorem Sound.ranked? (h : c.Sound) {p : CachePolicy} {now : Nat} {k : RankedKey}
    {routes : List CandidateRoute} (hget : c.ranked? p now k = some routes) :
    Apart k.denomOut routes := by
  rw [RouteCaches.ranked?] at hget
  split at hget
  · exact h.ranked.get? hget
  · cases hget

end RouteCaches

end SwapRouting
