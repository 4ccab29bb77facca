import SwapRouting.Format.Records
import SwapRouting.Format.Yaml
import SwapRouting.Proofs.Json.Document
import SwapRouting.Proofs.Json.Number

/-! Records that are written and read.

A record is written with one field for each of its names, so a reader that asks for these names finds
what was written. In the other direction, whatever is read as a count keeps the bound that was asked
for. -/
namespace SwapRouting
set_option autoImplicit false

/-! ## Writing -/

namespace Json

@[simp] theorem written_ofString (s : String) : (Value.ofString s).Written := ⟨s, rfl⟩

@[simp] theorem written_ofNat (n : Nat) : (Value.ofNat n).Written := ⟨n, rfl⟩

@[simp] theorem written_ofDecimal (d : Decimal) : (Value.ofDecimal d).Written := ⟨d.text, rfl⟩

@[simp] theorem written_record_iff (fields : List (String × Value)) :
    (Value.record fields).Written ↔ ∀ f ∈ fields, f.2.Written := by
  show WrittenFields (fields.map fun f => (some f.1, f.2)) ↔ _
  induction fields with
  | nil => simp [WrittenFields]
  | cons f r ih => simp [WrittenFields, ih]

@[simp] theorem written_ofList_iff {α : Type} (f : α → Value) (xs : List α) :
    (Value.ofList f xs).Written ↔ ∀ x ∈ xs, (f x).Written := by
  show WrittenItems (xs.map f) ↔ _
  induction xs with
  | nil => simp [WrittenItems]
  | cons x r ih => simp [WrittenItems, ih]

end Json

open Json

/-! ## Reading what was written -/

namespace Format

theorem fields?_record (fields : List (String × Value)) :
    Source.fields? (Value.record fields) = some fields := by
  show textFields? (fields.map fun f => (some f.1, f.2)) = some fields
  induction fields with
  | nil => rfl
  | cons f r ih =>
    rw [List.map_cons, textFields?, ih]
    rfl

theorem fieldNamed?_of_mem {V : Type} [Source V] {fields : List (String × V)}
    (h : (fields.map (·.1)).Nodup) {f : String × V} (hf : f ∈ fields) :
    fieldNamed? fields f.1 = some (some f.2) := by
  have honly : fields.filter (fun g => g.1 == f.1) = [f] := by
    induction fields with
    | nil => cases hf
    | cons g r ih =>
      rw [List.map_cons, List.nodup_cons] at h
      rcases List.mem_cons.1 hf with rfl | hr
      · have hnone : r.filter (fun g => g.1 == f.1) = [] := by
          rw [List.filter_eq_nil_iff]
          intro x hx hkey
          exact h.1 (List.mem_map.2 ⟨x, hx, eq_of_beq hkey⟩)
        rw [List.filter_cons, if_pos (beq_self_eq_true f.1), hnone]
      · have hne : ¬(g.1 == f.1) = true := by
          intro hkey
          exact h.1 (List.mem_map.2 ⟨f, hr, (eq_of_beq hkey).symm⟩)
        rw [List.filter_cons, if_neg hne]
        exact ih h.2 hr
  rw [fieldNamed?, honly]

theorem readAll_map {α β γ : Type} {f : β → Option α} {g : γ → β} {k : γ → α} {xs : List γ}
    (h : ∀ x ∈ xs, f (g x) = some (k x)) : readAll f (xs.map g) = some (xs.map k) := by
  induction xs with
  | nil => rfl
  | cons x r ih =>
    rw [List.map_cons, readAll, h x (List.mem_cons_self ..),
      ih fun y hy => h y (List.mem_cons_of_mem _ hy)]
    rfl

/-- A record is read under the names under which it was written. -/
theorem record?_record (fields : List (String × Value)) (h : (fields.map (·.1)).Nodup) :
    record? (fields.map (·.1)) (Value.record fields) = some (fields.map fun f => some f.2) := by
  rw [record?, fields?_record]
  exact readAll_map fun f hf => fieldNamed?_of_mem h hf

theorem list?_ofList {α : Type} {f : Value → Option α} {g : α → Value} {xs : List α}
    (h : ∀ x ∈ xs, f (g x) = some x) : list? f (Value.ofList g xs) = some xs := by
  have hall : readAll f (xs.map g) = some (xs.map id) := readAll_map h
  rw [List.map_id] at hall
  exact hall

@[simp] theorem text?_ofString (s : String) : Source.text? (Value.ofString s) = some s := rfl

@[simp] theorem decimal?_ofDecimal (d : Decimal) : Source.decimal? (Value.ofDecimal d) = some d :=
  Decimal.read?_text d

theorem count?_ofNat {n bound : Nat} (h : n < bound) :
    Source.count? bound (Value.ofNat n) = some n := Number.below?_ofNat h

theorem word64?_ofNat {n : Nat} (h : n < 2 ^ 64) : word64? (Value.ofNat n) = some n := count?_ofNat h

theorem word32?_ofNat {n : Nat} (h : n < 2 ^ 32) : word32? (Value.ofNat n) = some n := count?_ofNat h

theorem amount?_ofNat {n : Nat} (h : n < 2 ^ 128) : Source.amount? (Value.ofNat n) = some n :=
  count?_ofNat h

/-! ## What is read -/

/-- Sources whose counts keep the bound that is asked for. -/
class Bounded (V : Type) [Source V] : Prop where
  count?_lt : ∀ {bound n : Nat} {v : V}, Source.count? bound v = some n → n < bound
  amount?_lt : ∀ {n : Nat} {v : V}, Source.amount? v = some n → n < Amount.bound

theorem lt_of_bind_ite {o : Option Nat} {bound n : Nat}
    (h : (o.bind fun m => if m < bound then some m else none) = some n) : n < bound := by
  obtain ⟨m, -, hm⟩ := Option.bind_eq_some_iff.1 h
  split at hm
  · next hlt =>
    cases hm
    exact hlt
  · cases hm

theorem json_count?_lt {bound n : Nat} {v : Value} (h : v.count? bound = some n) : n < bound := by
  cases v with
  | number m =>
    change m.below? bound = some n at h
    unfold Number.below? at h
    split at h
    · cases h
    · exact lt_of_bind_ite h
  | _ => cases h

theorem yaml_count?_lt {bound n : Nat} {v : Yaml.Node} (h : v.count? bound = some n) : n < bound :=
  lt_of_bind_ite h

instance : Bounded Value := ⟨json_count?_lt, json_count?_lt⟩

instance : Bounded Yaml.Node := ⟨yaml_count?_lt, yaml_count?_lt⟩

theorem required_of_forall {V α : Type} {P : α → Prop} {f : V → Option α}
    (h : ∀ v a, f v = some a → P a) {v : Option V} {a : α} (hread : required f v = some a) : P a := by
  obtain ⟨w, -, hw⟩ := Option.bind_eq_some_iff.1 hread
  exact h w a hw

section
variable {V : Type} [Source V] {α : Type} {P : α → Prop} {f : V → Option α}

theorem list?_of_forall (h : ∀ v a, f v = some a → P a) {v : V} {xs : List α}
    (hread : list? f v = some xs) : ∀ a ∈ xs, P a := by
  obtain ⟨items, -, hitems⟩ := Option.bind_eq_some_iff.1 hread
  clear hread
  induction items generalizing xs with
  | nil =>
    cases hitems
    exact nofun
  | cons w r ih =>
    rw [readAll] at hitems
    split at hitems
    · next a as ha has =>
      cases hitems
      intro b hb
      rcases List.mem_cons.1 hb with rfl | hb
      · exact h w b ha
      · exact ih has b hb
    · cases hitems

/-- A list that is left out has no elements. -/
theorem optional_list?_of_forall (h : ∀ v a, f v = some a → P a) {v : Option V} {xs : List α}
    (hread : optional (list? f) [] v = some xs) : ∀ a ∈ xs, P a := by
  cases v with
  | none =>
    cases hread
    exact nofun
  | some w => exact list?_of_forall h hread

theorem word64?_lt [Bounded V] {v : Option V} {n : Nat} (h : required word64? v = some n) : n < 2 ^ 64 :=
  required_of_forall (fun _ _ hw => Bounded.count?_lt hw) h

theorem word32?_lt [Bounded V] {v : Option V} {n : Nat} (h : required word32? v = some n) : n < 2 ^ 32 :=
  required_of_forall (fun _ _ hw => Bounded.count?_lt hw) h

theorem amount?_lt [Bounded V] {v : Option V} {n : Nat} (h : required Source.amount? v = some n) :
    n < 2 ^ 128 :=
  required_of_forall (fun _ _ hw => Bounded.amount?_lt hw) h

end

end Format

end SwapRouting
