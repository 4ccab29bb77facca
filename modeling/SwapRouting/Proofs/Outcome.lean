import Mathlib.Data.List.Forall2
import SwapRouting.Error

/-! Results of steps taken one after the other.

A sequence of steps has a value exactly when each step has one, and an error exactly when the first
failing step has it. -/
namespace SwapRouting
set_option autoImplicit false

section
variable {ε α β : Type}

theorem bind_eq_ok_iff {x : Except ε α} {f : α → Except ε β} {b : β} :
    x >>= f = .ok b ↔ ∃ a, x = .ok a ∧ f a = .ok b := by
  cases x with
  | error e => simp [bind, Except.bind]
  | ok a => simp [bind, Except.bind]

theorem bind_eq_error_iff {x : Except ε α} {f : α → Except ε β} {e : ε} :
    x >>= f = .error e ↔ x = .error e ∨ ∃ a, x = .ok a ∧ f a = .error e := by
  cases x with
  | error e' => simp [bind, Except.bind]
  | ok a => simp [bind, Except.bind]

/-- The steps of a list have values exactly when each of them has the one at its place. -/
theorem mapM_eq_ok_iff {f : α → Except ε β} {l : List α} {bs : List β} :
    l.mapM f = .ok bs ↔ List.Forall₂ (fun a b => f a = .ok b) l bs := by
  induction l generalizing bs with
  | nil =>
    rw [List.mapM_nil, List.forall₂_nil_left_iff]
    exact ⟨fun h => (Except.ok.inj h).symm, fun h => congrArg Except.ok h.symm⟩
  | cons a l ih =>
    rw [List.mapM_cons, List.forall₂_cons_left_iff]
    constructor
    · intro h
      obtain ⟨b, hb, h⟩ := bind_eq_ok_iff.1 h
      obtain ⟨others, hothers, h⟩ := bind_eq_ok_iff.1 h
      exact ⟨b, others, hb, ih.1 hothers, (Except.ok.inj h).symm⟩
    · rintro ⟨b, others, hb, hothers, rfl⟩
      exact bind_eq_ok_iff.2 ⟨b, hb, bind_eq_ok_iff.2 ⟨others, ih.2 hothers, rfl⟩⟩

theorem orError_eq_ok_iff {e : ε} {o : Option α} {a : α} : orError e o = .ok a ↔ o = some a := by
  cases o with
  | none => simp [orError]
  | some b => simp [orError]

theorem orError_eq_error_iff {e e' : ε} {o : Option α} :
    orError e o = .error e' ↔ o = none ∧ e = e' := by
  cases o with
  | none => simp [orError]
  | some b => simp [orError]

theorem toOption_eq_some_iff {x : Except ε α} {a : α} : x.toOption = some a ↔ x = .ok a := by
  cases x with
  | error e => simp [Except.toOption]
  | ok b => simp [Except.toOption]

end

theorem liftSwap_eq_ok_iff {α : Type} {x : Except SwapError α} {a : α} :
    liftSwap x = .ok a ↔ x = .ok a := by
  cases x with
  | error e => simp [liftSwap]
  | ok b => simp [liftSwap]

end SwapRouting
