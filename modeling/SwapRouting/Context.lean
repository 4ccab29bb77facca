/-! Request contexts: whether a caller still waits for an answer.

Long computations ask the context between their steps. A context may end at any of these moments, so
it is a predicate on the stage and on the number of steps taken in it. -/
namespace SwapRouting
set_option autoImplicit false

/-- The places at which a computation asks whether to go on. -/
inductive Stage where
  | search
  | ranking
  | rebalancing
  | customQuote
deriving DecidableEq, Repr, Inhabited

def Stage.name : Stage → String
  | search => "candidate route search"
  | ranking => "route ranking"
  | rebalancing => "split rebalancing"
  | customQuote => "custom quote"

/-- Whether the request is over when a stage has taken so many steps. -/
structure Context where
  isDone : Stage → Nat → Bool

/-- A request that is never over. -/
def Context.background : Context := ⟨fun _ _ => false⟩

/-- A request that was over before it started. -/
def Context.finished : Context := ⟨fun _ _ => true⟩

end SwapRouting
