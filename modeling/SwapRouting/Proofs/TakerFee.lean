import Mathlib.Data.String.Basic
import Mathlib.Data.Sym.Sym2
import SwapRouting.Proofs.Dict
import SwapRouting.TakerFee

/-! Unordered pairs of denoms, and tables of taker fees.

A table is the dictionary of its entries, each under its unordered pair. So entries for different pairs
make the same table in any order, and whatever is set in turn, both directions of a trade find the fee that
was set last for their pair. -/
namespace SwapRouting
set_option autoImplicit false

namespace DenomPair

theorem lt_iff {p q : DenomPair} :
    p < q ↔ p.first < q.first ∨ (p.first = q.first ∧ p.second < q.second) := Iff.rfl

instance : IsStrictTotalOrder DenomPair (· < ·) where
  irrefl p h := by
    rcases h with h | ⟨-, h⟩
    · exact lt_irrefl _ h
    · exact lt_irrefl _ h
  trans p q s hpq hqs := by
    rw [lt_iff] at hpq hqs ⊢
    rcases hpq with hpq | ⟨hp, hpq⟩
    · rcases hqs with hqs | ⟨hq, -⟩
      · exact Or.inl (hpq.trans hqs)
      · exact Or.inl (hq ▸ hpq)
    · rcases hqs with hqs | ⟨hq, hqs⟩
      · exact Or.inl (hp ▸ hqs)
      · exact Or.inr ⟨hp.trans hq, hpq.trans hqs⟩
  trichotomous p q hpq hqp := by
    obtain ⟨a, b⟩ := p
    obtain ⟨c, d⟩ := q
    simp only [lt_iff, not_or, not_and, not_lt] at hpq hqp
    have hfirst : a = c := le_antisymm hqp.1 hpq.1
    have hsecond : b = d := le_antisymm (hqp.2 hfirst.symm) (hpq.2 hfirst)
    rw [hfirst, hsecond]

theorem of_comm (a b : Denom) : of a b = of b a := by
  unfold of
  by_cases hba : b < a
  · rw [if_pos hba, if_neg (lt_asymm hba)]
  · by_cases hab : a < b
    · rw [if_neg hba, if_pos hab]
    · rw [if_neg hba, if_neg hab, le_antisymm (not_lt.1 hba) (not_lt.1 hab)]

theorem of_inj {a b c d : Denom} (h : of a b = of c d) : a = c ∧ b = d ∨ a = d ∧ b = c := by
  rw [of, of] at h
  split at h <;> split at h <;> simp only [DenomPair.mk.injEq] at h
  · exact Or.inl ⟨h.2, h.1⟩
  · exact Or.inr ⟨h.2, h.1⟩
  · exact Or.inr ⟨h.1, h.2⟩
  · exact Or.inl h

theorem of_eq_of_iff {a b c d : Denom} : of a b = of c d ↔ s(a, b) = s(c, d) := by
  rw [Sym2.eq_iff]
  constructor
  · exact of_inj
  · rintro (⟨rfl, rfl⟩ | ⟨rfl, rfl⟩)
    · rfl
    · exact of_comm a b

theorem of_of_le {a b : Denom} (h : a ≤ b) : of a b = ⟨a, b⟩ := if_neg (not_lt.2 h)

theorem first_le_second_of (a b : Denom) : (of a b).first ≤ (of a b).second := by
  unfold of
  split
  · next h => exact h.le
  · next h => exact not_lt.1 h

end DenomPair

/-- The unordered pair a fee belongs to. -/
def TakerFee.pair (e : TakerFee) : DenomPair := DenomPair.of e.first e.second

namespace FeeTable

theorem fees_ofEntries (es : List TakerFee) :
    (ofEntries es).fees = Dict.ofList (es.map fun e => (e.pair, e.fee)) := by
  unfold ofEntries Dict.ofList
  rw [List.foldl_map]
  exact (List.foldl_hom FeeTable.fees fun _ _ => rfl).symm

theorem ofEntries_eq_of_perm {es es' : List TakerFee} (hperm : es.Perm es')
    (hpairs : (es.map TakerFee.pair).Nodup) : ofEntries es = ofEntries es' := by
  have hkeys : ((es.map fun e => (e.pair, e.fee)).map Prod.fst).Nodup := by
    rw [List.map_map]
    exact hpairs
  have hfees : (ofEntries es).fees = (ofEntries es').fees := by
    rw [fees_ofEntries, fees_ofEntries]
    exact Dict.ofList_eq_of_perm (hperm.map _) hkeys
  exact congrArg FeeTable.mk hfees

/-! ## Fees set in turn -/

/-- The table with each fee set in turn, whichever denom comes first. -/
def setAll (t : FeeTable) (es : List TakerFee) : FeeTable :=
  es.foldl (fun t e => t.set e.first e.second e.fee) t

theorem setAll_ofEntries (loaded es : List TakerFee) :
    (ofEntries loaded).setAll es = ofEntries (loaded ++ es) := List.foldl_append.symm

theorem ofEntries_concat (es : List TakerFee) (e : TakerFee) :
    ofEntries (es ++ [e]) = (ofEntries es).set e.first e.second e.fee := List.foldl_append

section
variable {history : List TakerFee} {a b : Denom} {fee : Decimal}

/-- Whether this is the fee that was set last for two denoms, in either order. -/
def LastFee (history : List TakerFee) (a b : Denom) (fee : Decimal) : Prop :=
  ∃ earlier e later, history = earlier ++ e :: later ∧ s(e.first, e.second) = s(a, b) ∧ e.fee = fee ∧
    ∀ x ∈ later, s(x.first, x.second) ≠ s(a, b)

theorem not_lastFee_nil : ¬ LastFee [] a b fee := by
  rintro ⟨earlier, e, later, h, -⟩
  simp at h

/-- One more fee hides those of its own pair only. -/
theorem lastFee_concat_iff {e : TakerFee} : LastFee (history ++ [e]) a b fee ↔
    (s(e.first, e.second) = s(a, b) ∧ e.fee = fee) ∨
      (s(e.first, e.second) ≠ s(a, b) ∧ LastFee history a b fee) := by
  constructor
  · -- the fee that counts is the one behind all others, or stands before it
    rintro ⟨earlier, x, later, hsplit, hpair, hfee, hlast⟩
    rcases List.eq_nil_or_concat later with rfl | ⟨rest, y, rfl⟩
    · obtain ⟨-, hx⟩ := List.append_inj' hsplit rfl
      obtain rfl := List.singleton_inj.1 hx
      exact Or.inl ⟨hpair, hfee⟩
    · have hassoc : history ++ [e] = (earlier ++ x :: rest) ++ [y] := by simpa using hsplit
      obtain ⟨hhistory, hy⟩ := List.append_inj' hassoc rfl
      obtain rfl := List.singleton_inj.1 hy
      rw [List.concat_eq_append] at hlast
      obtain ⟨hrest, hlasty⟩ := List.forall_mem_append.1 hlast
      exact Or.inr ⟨hlasty e (List.mem_singleton_self e), earlier, x, rest, hhistory, hpair, hfee, hrest⟩
  · rintro (⟨hpair, hfee⟩ | ⟨hpair, earlier, x, later, rfl, hx, hfee, hlast⟩)
    · exact ⟨history, e, [], rfl, hpair, hfee, nofun⟩
    · refine ⟨earlier, x, later ++ [e], by simp, hx, hfee, ?_⟩
      refine List.forall_mem_append.2 ⟨hlast, fun y hy => ?_⟩
      rw [List.mem_singleton.1 hy]
      exact hpair

theorem get?_comm (t : FeeTable) (a b : Denom) : t.get? b a = t.get? a b := by
  rw [get?, get?, DenomPair.of_comm]

theorem get?_set (t : FeeTable) (e : TakerFee) (a b : Denom) :
    (t.set e.first e.second e.fee).get? a b
      = if s(e.first, e.second) = s(a, b) then some e.fee else t.get? a b := by
  rw [get?, set, Dict.get?_insert]
  simp only [DenomPair.of_eq_of_iff]
  rfl

theorem get?_ofEntries_eq_some_iff :
    (ofEntries history).get? a b = some fee ↔ LastFee history a b fee := by
  induction history using List.reverseRecOn with
  | nil => exact iff_of_false nofun not_lastFee_nil
  | append_singleton es e ih =>
    rw [ofEntries_concat, get?_set, lastFee_concat_iff]
    by_cases hpair : s(e.first, e.second) = s(a, b)
    · simp [hpair]
    · simp [hpair, ih]

theorem get?_ofEntries_eq_none_iff : (ofEntries history).get? a b = none ↔
    ∀ e ∈ history, s(e.first, e.second) ≠ s(a, b) := by
  rw [get?, fees_ofEntries, Dict.get?_ofList_eq_none_iff, List.forall_mem_map]
  simp only [TakerFee.pair, Ne, DenomPair.of_eq_of_iff]

/-! ## Listed fees -/

theorem ascending_fees_ofEntries (es : List TakerFee) : (ofEntries es).fees.Ascending := by
  rw [fees_ofEntries]
  exact Dict.ascending_ofList _

theorem first_le_second_of_mem {e : DenomPair × Decimal} (h : e ∈ (ofEntries history).fees.entries) :
    e.1.first ≤ e.1.second := by
  have hget := (ascending_fees_ofEntries history).get?_of_mem h
  rw [fees_ofEntries] at hget
  obtain ⟨x, -, hx⟩ := List.mem_map.1 (Dict.mem_of_get?_ofList_eq_some hget)
  rw [← (Prod.mk.inj hx).1]
  exact DenomPair.first_le_second_of x.first x.second

theorem mem_entries_ofEntries_iff : ⟨a, b, fee⟩ ∈ (ofEntries history).entries ↔
    a ≤ b ∧ (ofEntries history).get? a b = some fee := by
  constructor
  · intro h
    obtain ⟨⟨⟨x, y⟩, z⟩, hmem, heq⟩ := List.mem_map.1 h
    cases heq
    have hle : x ≤ y := first_le_second_of_mem hmem
    refine ⟨hle, ?_⟩
    rw [get?, DenomPair.of_of_le hle]
    exact (ascending_fees_ofEntries history).get?_of_mem hmem
  · rintro ⟨hle, hget⟩
    rw [get?, DenomPair.of_of_le hle] at hget
    exact List.mem_map.2 ⟨(⟨a, b⟩, fee), Dict.mem_entries_of_get?_eq_some hget, rfl⟩

/-- Listed fees make the table again. -/
theorem ofEntries_entries (es : List TakerFee) : ofEntries (ofEntries es).entries = ofEntries es := by
  have hkeys : (ofEntries es).entries.map (fun e => (e.pair, e.fee)) = (ofEntries es).fees.entries := by
    rw [entries, List.map_map, List.map_congr_left (g := id), List.map_id]
    intro e he
    exact Prod.ext (DenomPair.of_of_le (first_le_second_of_mem he)) rfl
  have hascending := ascending_fees_ofEntries es
  have hfees : (ofEntries (ofEntries es).entries).fees = (ofEntries es).fees := by
    rw [fees_ofEntries, hkeys]
    refine (Dict.ascending_ofList _).eq_of_get? hascending ?_
    exact hascending.get?_ofList_of_perm (List.Perm.refl _)
  exact congrArg FeeTable.mk hfees

end

/-! ## Fees of unordered pairs -/

/-- A table as a map on unordered pairs, after fees were set in turn. -/
structure MapsPairs (t : FeeTable) (history : List TakerFee) : Prop where
  last : ∀ a b fee, t.get? a b = some fee ↔ LastFee history a b fee
  unset : ∀ a b, t.get? a b = none ↔ ∀ e ∈ history, s(e.first, e.second) ≠ s(a, b)
  swapped : ∀ a b, t.get? b a = t.get? a b
  listed : ∀ a b fee, ⟨a, b, fee⟩ ∈ t.entries ↔ a ≤ b ∧ t.get? a b = some fee
  ascending : t.entries.Pairwise fun e e' =>
    e.first < e'.first ∨ e.first = e'.first ∧ e.second < e'.second
  once : (t.entries.map fun e => s(e.first, e.second)).Nodup
  reloaded : ∀ a b, (ofEntries t.entries).get? a b = t.get? a b

theorem mapsPairs_setAll (loaded es : List TakerFee) :
    ((ofEntries loaded).setAll es).MapsPairs (loaded ++ es) := by
  rw [setAll_ofEntries]
  have hascending : (ofEntries (loaded ++ es)).entries.Pairwise fun e e' =>
      e.first < e'.first ∨ e.first = e'.first ∧ e.second < e'.second :=
    List.pairwise_map.2 (ascending_fees_ofEntries (loaded ++ es))
  constructor
  · intro a b fee
    exact get?_ofEntries_eq_some_iff
  · intro a b
    exact get?_ofEntries_eq_none_iff
  · exact get?_comm _
  · intro a b fee
    exact mem_entries_ofEntries_iff
  · exact hascending
  · -- two entries of one unordered pair are of the same ordered pair, since each lists the lesser denom first
    refine List.pairwise_map.2 (hascending.imp_of_mem ?_)
    intro e e' he he' hlt hsame
    have hle : e.first ≤ e.second := (mem_entries_ofEntries_iff.1 he).1
    have hle' : e'.first ≤ e'.second := (mem_entries_ofEntries_iff.1 he').1
    rw [← DenomPair.of_eq_of_iff, DenomPair.of_of_le hle, DenomPair.of_of_le hle'] at hsame
    obtain ⟨hfirst, hsecond⟩ := DenomPair.mk.inj hsame
    rcases hlt with hlt | ⟨-, hlt⟩
    · exact hlt.ne hfirst
    · exact hlt.ne hsecond
  · intro a b
    rw [ofEntries_entries]

end FeeTable

end SwapRouting
