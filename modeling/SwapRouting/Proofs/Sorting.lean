import Mathlib.Data.List.Sort
import SwapRouting.Dict

/-! Sorted lists.

Sorting rearranges, and sorts where any two elements can be ordered. In a list in which a property of an
element passes to all elements before it, those that have the property come first. -/
namespace SwapRouting
set_option autoImplicit false

section
variable {α : Type} {le : α → α → Bool}

theorem insertBy_eq_orderedInsert (le : α → α → Bool) (a : α) (l : List α) :
    insertBy le a l = l.orderedInsert (fun x y => le x y) a := by
  induction l with
  | nil => rfl
  | cons b r ih => rw [insertBy, List.orderedInsert_cons, ih]

theorem sortBy_eq_insertionSort (le : α → α → Bool) (l : List α) :
    sortBy le l = l.insertionSort (fun x y => le x y) := by
  induction l with
  | nil => rfl
  | cons a r ih => rw [sortBy, List.insertionSort_cons, ih, insertBy_eq_orderedInsert]

theorem sortBy_perm (le : α → α → Bool) (l : List α) : (sortBy le l).Perm l := by
  rw [sortBy_eq_insertionSort]
  exact List.perm_insertionSort _ l

theorem pairwise_sortBy (htotal : ∀ a b, le a b ∨ le b a)
    (htrans : ∀ a b c, le a b → le b c → le a c) (l : List α) :
    (sortBy le l).Pairwise fun a b => le a b := by
  have total : Std.Total (fun a b => (le a b : Prop)) := ⟨htotal⟩
  have trans : IsTrans α (fun a b => (le a b : Prop)) := ⟨htrans⟩
  rw [sortBy_eq_insertionSort]
  exact List.pairwise_insertionSort _ l

theorem sortBy_eq_self {l : List α} (h : l.Pairwise fun a b => le a b) : sortBy le l = l := by
  rw [sortBy_eq_insertionSort]
  exact List.Pairwise.insertionSort_eq h

theorem filter_insertBy {p : α → Bool} (hties : ∀ a b, p a → p b → le a b) (a : α) (l : List α) :
    (insertBy le a l).filter p = (a :: l).filter p := by
  induction l with
  | nil => rfl
  | cons b r ih =>
    rw [insertBy]
    split
    · rfl
    · next hle =>
      rw [List.filter_cons, ih]
      -- `a` moves past `b`, which does not show if one of the two is left out
      cases ha : p a with
      | false => simp [List.filter_cons, ha]
      | true =>
        cases hb : p b with
        | false => simp [List.filter_cons, hb]
        | true => exact absurd (hties a b ha hb) hle

/-- Sorting is stable: elements any two of which may stand in either order stay in the order they were
in. -/
theorem filter_sortBy {p : α → Bool} (hties : ∀ a b, p a → p b → le a b) (l : List α) :
    (sortBy le l).filter p = l.filter p := by
  induction l with
  | nil => rfl
  | cons a r ih => rw [sortBy, filter_insertBy hties, List.filter_cons, List.filter_cons, ih]

/-- Elements no two of which precede each other are sorted into one order, whatever order they come in. -/
theorem sortBy_eq_of_perm (htotal : ∀ a b, le a b ∨ le b a)
    (htrans : ∀ a b c, le a b → le b c → le a c) {l l' : List α} (hperm : l.Perm l')
    (hanti : ∀ a ∈ l, ∀ b ∈ l, le a b → le b a → a = b) : sortBy le l = sortBy le l' := by
  have hsorted : (sortBy le l).Perm (sortBy le l') :=
    (sortBy_perm le l).trans (hperm.trans (sortBy_perm le l').symm)
  refine hsorted.eq_of_pairwise ?_ (pairwise_sortBy htotal htrans l) (pairwise_sortBy htotal htrans l')
  intro a b ha hb
  refine hanti a ((sortBy_perm le l).mem_iff.1 ha) b ?_
  exact hperm.mem_iff.2 ((sortBy_perm le l').mem_iff.1 hb)

/-! ## Properties of the first elements -/

/-- Whether a property passes from any element to all before it. -/
def Leading (p : α → Bool) (l : List α) : Prop := l.Pairwise fun a b => p b → p a

theorem Leading.of_cons {p : α → Bool} {a : α} {l : List α} (h : Leading p (a :: l)) :
    Leading p l := List.Pairwise.of_cons h

theorem Leading.filter_eq_nil {p : α → Bool} {a : α} {l : List α} (h : Leading p (a :: l))
    (ha : p a = false) : l.filter p = [] := by
  rw [List.filter_eq_nil_iff]
  intro b hb hpb
  have hpa := (List.pairwise_cons.1 h).1 b hb hpb
  rw [ha] at hpa
  cases hpa

theorem Leading.flatMap {β : Type} {p : α → Bool} {q : β → Bool} {f : α → List β} {l : List α}
    (h : Leading p l) (hf : ∀ a ∈ l, ∀ b ∈ f a, q b = p a) : Leading q (l.flatMap f) := by
  refine List.pairwise_flatMap.2 ⟨?_, ?_⟩
  · intro a ha
    refine List.pairwise_of_forall_mem_list ?_
    intro b hb c hc hq
    rw [hf a ha b hb, ← hf a ha c hc]
    exact hq
  · refine List.Pairwise.imp_of_mem ?_ h
    intro a a' ha ha' himp b hb c hc hq
    rw [hf a ha b hb]
    rw [hf a' ha' c hc] at hq
    exact himp hq

end

/-! ## Numbers in ascending order -/

theorem mem_insertAscending {m n : Nat} {l : List Nat} : m ∈ insertAscending n l ↔ m = n ∨ m ∈ l := by
  induction l with
  | nil => simp [insertAscending]
  | cons k r ih =>
    unfold insertAscending
    split
    · exact List.mem_cons
    · split
      · next hkey => simp [hkey]
      · rw [List.mem_cons, ih, List.mem_cons]
        tauto

theorem pairwise_insertAscending {n : Nat} {l : List Nat} (h : l.Pairwise (· < ·)) :
    (insertAscending n l).Pairwise (· < ·) := by
  induction l with
  | nil => exact List.pairwise_singleton _ _
  | cons k r ih =>
    obtain ⟨hhead, htail⟩ := List.pairwise_cons.1 h
    unfold insertAscending
    split
    · next hlt =>
      refine List.pairwise_cons.2 ⟨?_, h⟩
      intro m hm
      rcases List.mem_cons.1 hm with rfl | hm
      · exact hlt
      · exact hlt.trans (hhead m hm)
    · split
      · exact h
      · refine List.pairwise_cons.2 ⟨?_, ih htail⟩
        intro m hm
        rcases mem_insertAscending.1 hm with rfl | hm
        · omega
        · exact hhead m hm

theorem mem_ascending {m : Nat} {ns : List Nat} : m ∈ ascending ns ↔ m ∈ ns := by
  induction ns with
  | nil => exact Iff.rfl
  | cons n r ih =>
    have hcons : ascending (n :: r) = insertAscending n (ascending r) := rfl
    rw [hcons, mem_insertAscending, ih, List.mem_cons]

theorem pairwise_ascending (ns : List Nat) : (ascending ns).Pairwise (· < ·) := by
  induction ns with
  | nil => exact List.Pairwise.nil
  | cons n r ih => exact pairwise_insertAscending ih

/-- Ascending numbers are known by what they are. -/
theorem ascending_eq_of_mem_iff {ns ms : List Nat} (h : ∀ n, n ∈ ns ↔ n ∈ ms) :
    ascending ns = ascending ms := by
  refine (pairwise_ascending ns).eq_of_mem_iff (pairwise_ascending ms) fun n => ?_
  rw [mem_ascending, mem_ascending, h]

end SwapRouting
