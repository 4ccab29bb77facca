import SwapRouting.Proofs.Router.Serving

/-! What a router can come to.

A history is a list of operations: blocks, quotes, lookups, pinned routes, files read back, files changed
by others, and a new start over the same files. Every operation comes with its own time, so entries may
have expired or not at any of them. Whatever the history, the router stays sound. -/
namespace SwapRouting
set_option autoImplicit false

/-! ## Questions -/

/-- The ways to ask for a quote. -/
inductive Inquiry where
  | best (request : QuoteRequest)
  /-- Through these pools in their order. -/
  | through (tokenIn : Coin) (denomOut : Denom) (ids : List Nat)
  /-- Through one pool. -/
  | direct (tokenIn : Coin) (denomOut : Denom) (id : Nat)

namespace Inquiry

/-- What is asked of every route. Given pools are always quoted for an input. -/
def order : Inquiry → SwapOrder
  | best q => q.order
  | through tokenIn _ _ => ⟨.exactIn, tokenIn.denom, tokenIn.amount⟩
  | direct tokenIn _ _ => ⟨.exactIn, tokenIn.denom, tokenIn.amount⟩

def denomOut : Inquiry → Denom
  | best q => q.denomOut
  | through _ denomOut _ => denomOut
  | direct _ denomOut _ => denomOut

end Inquiry

/-- The quote that answers a question, with what it leaves behind. -/
def Router.ask (r : Router) (now : Nat) (ctx : Context) :
    Inquiry → Except RouterError Quote × Memory
  | .best q => r.quote now ctx q
  | .through tokenIn denomOut ids => r.customQuote ctx tokenIn denomOut ids
  | .direct tokenIn denomOut id => r.directQuote ctx tokenIn denomOut id

/-! ## Histories -/

inductive Operation where
  | block (block : Block) (whitelist : CodeWhitelist)
  | ask (now : Nat) (ctx : Context) (inquiry : Inquiry)
  /-- A search for candidates, or a look into the cache in place of it. -/
  | candidates (now : Nat) (ctx : Context) (denomIn denomOut : Denom) (options : QuoteOptions)
  /-- A look into the cache alone. -/
  | cached (now : Nat) (denomIn denomOut : Denom)
  | pin (denomIn : Denom) (routes : List CandidateRoute)
  | load
  /-- The files become these, by other hands. -/
  | files (directory : Option Directory)
  /-- A new router over the same files. -/
  | reopen

namespace Router

def perform (r : Router) : Operation → Router
  | .block block whitelist => r.applyBlock block whitelist
  | .ask now ctx inquiry => { r with memory := (r.ask now ctx inquiry).2 }
  | .candidates now ctx denomIn denomOut options =>
    { r with memory := (r.candidates now ctx denomIn denomOut options r.memory).2 }
  | .cached now denomIn denomOut =>
    { r with memory := (cachedCandidates now denomIn denomOut r.memory).2 }
  | .pin denomIn routes => (r.overwriteRoutes denomIn routes).2
  | .load => r.loadOverwrites.2
  | .files directory => { r with overwrites := { r.overwrites with directory := directory } }
  | .reopen => r.reopened

def run (r : Router) (history : List Operation) : Router := history.foldl perform r

/-- A router that was just created, over any files. -/
def Fresh (r : Router) : Prop :=
  ∃ config tokens enabled persistent directory,
    create config tokens enabled (OverwriteStore.opened persistent directory) = .ok r

/-- A router that some history leads to. -/
def Reachable (r : Router) : Prop := ∃ start history, Fresh start ∧ r = start.run history

/-! ## What every history keeps -/

/-- The settings are valid, every pool is found under its own identifier, and pinned and cached routes
lead where they are kept for. -/
structure Sound (r : Router) : Prop where
  config : r.config.validate = .ok ()
  keyed : r.generation.snapshot.Keyed
  pinned : r.overwrites.Sound
  caches : r.memory.caches.Sound

variable {r : Router}

theorem Fresh.sound (h : r.Fresh) : r.Sound := by
  obtain ⟨config, tokens, enabled, persistent, directory, hcreate⟩ := h
  rw [create] at hcreate
  split at hcreate
  · cases hcreate
  · next hconfig =>
    cases hcreate
    exact ⟨hconfig, PoolSnapshot.keyed_empty, OverwriteStore.sound_opened _ _,
      RouteCaches.sound_empty⟩

theorem Fresh.holdsNothing (h : r.Fresh) :
    r.overwrites.pinned = Dict.empty ∧ r.memory = Memory.empty := by
  obtain ⟨config, tokens, enabled, persistent, directory, hcreate⟩ := h
  rw [create] at hcreate
  split at hcreate
  · cases hcreate
  · cases hcreate
    exact ⟨rfl, rfl⟩

/-- Every answer of a sound router serves its question and leaves the caches sound. -/
theorem ask_spec (h : r.Sound) (now : Nat) (ctx : Context) (i : Inquiry) :
    (r.ask now ctx i).2.caches.Sound ∧
      ∀ quote, (r.ask now ctx i).1 = .ok quote → r.Serves i.order i.denomOut quote := by
  cases i with
  | best q => exact quote_spec h.keyed h.pinned h.caches now ctx q
  | through tokenIn denomOut ids =>
    refine ⟨?_, fun quote hquote => customQuote_serves h.keyed hquote⟩
    rw [ask, caches_customQuote]
    exact h.caches
  | direct tokenIn denomOut id =>
    refine ⟨?_, fun quote hquote => directQuote_serves h.keyed hquote⟩
    rw [ask, caches_directQuote]
    exact h.caches

theorem Sound.overwriteRoutes (h : r.Sound) (denomIn : Denom) (routes : List CandidateRoute) :
    (r.overwriteRoutes denomIn routes).2.Sound := by
  rw [Router.overwriteRoutes]
  split
  · exact h
  · exact ⟨h.config, h.keyed, h.pinned.overwrite _ _ _, h.caches⟩

theorem Sound.loadOverwrites (h : r.Sound) : r.loadOverwrites.2.Sound := by
  rw [Router.loadOverwrites]
  split
  · exact h
  · exact ⟨h.config, h.keyed, h.pinned.load _, h.caches⟩

theorem Sound.perform (h : r.Sound) (op : Operation) : (r.perform op).Sound := by
  cases op with
  | block block whitelist =>
    exact ⟨h.config, PoolSnapshot.keyed_ofPools _ _, h.pinned, h.caches⟩
  | ask now ctx inquiry =>
    exact ⟨h.config, h.keyed, h.pinned, (ask_spec h now ctx inquiry).1⟩
  | candidates now ctx denomIn denomOut options =>
    exact ⟨h.config, h.keyed, h.pinned, sound_candidates r h.caches now ctx denomIn denomOut options⟩
  | cached now denomIn denomOut =>
    exact ⟨h.config, h.keyed, h.pinned, sound_readCandidates h.caches now denomIn denomOut⟩
  | pin denomIn routes => exact h.overwriteRoutes denomIn routes
  | load => exact h.loadOverwrites
  | files directory => exact ⟨h.config, h.keyed, h.pinned, h.caches⟩
  | reopen =>
    exact ⟨h.config, PoolSnapshot.keyed_empty, OverwriteStore.sound_opened _ _,
      RouteCaches.sound_empty⟩

theorem Sound.run (h : r.Sound) (history : List Operation) : (r.run history).Sound := by
  induction history generalizing r with
  | nil => exact h
  | cons op rest ih => exact ih (h.perform op)

/-- Whether two routers have the same settings and tokens. -/
structure SameSettings (r r' : Router) : Prop where
  config : r'.config = r.config
  tokens : r'.tokens = r.tokens
  overwritesEnabled : r'.overwritesEnabled = r.overwritesEnabled

theorem sameSettings_perform (r : Router) (op : Operation) : r.SameSettings (r.perform op) := by
  cases op with
  | pin denomIn routes =>
    rw [Router.perform, Router.overwriteRoutes]
    split
    · exact ⟨rfl, rfl, rfl⟩
    · exact ⟨rfl, rfl, rfl⟩
  | load =>
    rw [Router.perform, Router.loadOverwrites]
    split
    · exact ⟨rfl, rfl, rfl⟩
    · exact ⟨rfl, rfl, rfl⟩
  | _ => exact ⟨rfl, rfl, rfl⟩

theorem sameSettings_run (r : Router) (history : List Operation) : r.SameSettings (r.run history) := by
  induction history generalizing r with
  | nil => exact ⟨rfl, rfl, rfl⟩
  | cons op rest ih =>
    have hfirst := sameSettings_perform r op
    have hrest := ih (r.perform op)
    exact ⟨hrest.config.trans hfirst.config, hrest.tokens.trans hfirst.tokens,
      hrest.overwritesEnabled.trans hfirst.overwritesEnabled⟩

theorem Reachable.sound (h : r.Reachable) : r.Sound := by
  obtain ⟨start, history, hfresh, rfl⟩ := h
  exact hfresh.sound.run history

end Router

end SwapRouting
