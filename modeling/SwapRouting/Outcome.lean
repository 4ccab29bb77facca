/-! Results that are a value or an error. -/
namespace SwapRouting
set_option autoImplicit false

/-- The value, or this error where there is none. -/
def orError {ε α : Type} (e : ε) : Option α → Except ε α
  | some a => .ok a
  | none => .error e

end SwapRouting
