/-! The two ways to fix a swap: by what goes in or by what comes out. -/
namespace SwapRouting
set_option autoImplicit false

inductive SwapMethod where
  /-- The input is fixed and the output is as large as possible. -/
  | exactIn
  /-- The output is fixed and the input is as small as possible. -/
  | exactOut
deriving DecidableEq, Repr, Inhabited

def SwapMethod.name : SwapMethod → String
  | exactIn => "exact_in"
  | exactOut => "exact_out"

end SwapRouting
