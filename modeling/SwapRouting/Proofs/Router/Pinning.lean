import SwapRouting.Proofs.Router.Quotes

/-! Pinned routes over whole histories.

Once routes are accepted for a denom they stay pinned until others are: blocks, questions and looks into
the caches leave them in place, and so do refused routes and those accepted for other denoms. All that
time a question from the denom to the one in which the routes end is answered through one of them or not
at all, whatever its options are. The caches and the count of searches stay as they were. -/
namespace SwapRouting
set_option autoImplicit false

namespace Router

variable {r : Router} {denomIn denomOut : Denom} {routes : List CandidateRoute}

/-! ## How long routes stay pinned -/

/-- Whether these routes are pinned for a denom and may be used. -/
structure Pins (r : Router) (denomIn : Denom) (routes : List CandidateRoute) : Prop where
  enabled : r.overwritesEnabled = true
  pinned : r.overwrites.pinned.get? denomIn = some routes

/-- Whether an operation leaves what is pinned for a denom: it accepts no other routes for it and loads
none, and it is no new start. -/
def LeavesPinned (denomIn : Denom) (r : Router) : Operation → Prop
  | .pin d routes => d = denomIn → (r.overwriteRoutes d routes).1 ≠ .ok ()
  | .load => r.loadOverwrites.2.overwrites.pinned.get? denomIn = r.overwrites.pinned.get? denomIn
  | .reopen => False
  | _ => True

/-- A history none of whose operations replaces what is pinned for a denom. -/
def KeepsPinned (denomIn : Denom) (r : Router) : List Operation → Prop
  | [] => True
  | op :: rest => r.LeavesPinned denomIn op ∧ KeepsPinned denomIn (r.perform op) rest

theorem overwriteRoutes_eq_ok (h : (r.overwriteRoutes denomIn routes).1 = .ok ()) :
    r.overwritesEnabled = true ∧ overwriteViolations r.generation.snapshot denomIn routes = [] ∧
      (r.overwriteRoutes denomIn routes).2.Pins denomIn routes := by
  rw [overwriteRoutes] at h ⊢
  split at h
  · cases h
  · next henabled =>
    rw [if_neg henabled]
    have hon : r.overwritesEnabled = true := by simpa using henabled
    rcases OverwriteStore.overwrite_cases r.overwrites r.generation.snapshot denomIn routes with
      ⟨⟨e, he⟩, -⟩ | ⟨-, hnone, hpinned⟩
    · simp only [he] at h
      cases h
    · refine ⟨hon, hnone, hon, ?_⟩
      simp only [hpinned, Dict.get?_insert, if_true]

/-- Routes for another denom, and routes that are refused, leave what is pinned. -/
theorem Pins.overwriteRoutes (h : r.Pins denomIn routes) {d : Denom} {others : List CandidateRoute}
    (hleaves : d = denomIn → (r.overwriteRoutes d others).1 ≠ .ok ()) :
    (r.overwriteRoutes d others).2.Pins denomIn routes := by
  rw [Router.overwriteRoutes] at hleaves ⊢
  split
  · exact h
  · next henabled =>
    rw [if_neg henabled] at hleaves
    refine ⟨h.enabled, ?_⟩
    simp only at hleaves ⊢
    rcases OverwriteStore.overwrite_cases r.overwrites r.generation.snapshot d others with
      ⟨-, hpinned⟩ | ⟨hok, -, hpinned⟩
    · rw [hpinned]
      exact h.pinned
    · have hne : d ≠ denomIn := fun hd => hleaves hd hok
      rw [hpinned, Dict.get?_insert, if_neg hne]
      exact h.pinned

theorem Pins.perform (h : r.Pins denomIn routes) {op : Operation}
    (hleaves : r.LeavesPinned denomIn op) : (r.perform op).Pins denomIn routes := by
  cases op with
  | block block whitelist => exact ⟨h.enabled, h.pinned⟩
  | ask now ctx inquiry => exact ⟨h.enabled, h.pinned⟩
  | candidates now ctx denomIn denomOut options => exact ⟨h.enabled, h.pinned⟩
  | cached now denomIn denomOut => exact ⟨h.enabled, h.pinned⟩
  | pin d others => exact h.overwriteRoutes hleaves
  | load =>
    refine ⟨?_, hleaves.trans h.pinned⟩
    rw [Router.perform, loadOverwrites]
    split
    · exact h.enabled
    · exact h.enabled
  | files directory => exact ⟨h.enabled, h.pinned⟩
  | reopen => exact hleaves.elim

theorem Pins.run (h : r.Pins denomIn routes) {history : List Operation}
    (hkeeps : KeepsPinned denomIn r history) : (r.run history).Pins denomIn routes := by
  induction history generalizing r with
  | nil => exact h
  | cons op rest ih => exact ih (h.perform hkeeps.1) hkeeps.2

/-! ## Answers through pinned routes -/

/-- An answer that was made from these routes alone: it is no quote, or a quote through one of them that
leads to the wanted denom; no cache was changed and nothing was searched for. -/
structure AnswersFrom (r : Router) (routes : List CandidateRoute) (denomIn denomOut : Denom)
    (answer : Except RouterError Quote × Memory) : Prop where
  single : ∀ quote, answer.1 = .ok quote → ∃ s, quote.splits = [s] ∧
    s.route.candidate ∈ routes ∧ r.Leads denomIn denomOut s.route
  caches : answer.2.caches = r.memory.caches
  searches : answer.2.searches = r.memory.searches

theorem searches_quotePinned (r : Router) (ctx : Context) (q : QuoteRequest)
    (pinned : List CandidateRoute) (m : Memory) :
    (r.quotePinned ctx q pinned m).2.searches = m.searches := by
  rw [quotePinned]
  split
  · rfl
  · rfl
  · rfl

theorem quotePinned_eq_ok (hkeyed : r.generation.snapshot.Keyed) {ctx : Context} {q : QuoteRequest}
    {m : Memory} {quote : Quote} (hlead : LeadTo q.denomOut routes)
    (h : (r.quotePinned ctx q routes m).1 = .ok quote) :
    ∃ s, quote.splits = [s] ∧ s.route.candidate ∈ routes ∧
      r.Leads q.denomIn q.denomOut s.route := by
  rw [quotePinned] at h
  split at h
  · cases h
  · cases h
  · next best rest hranked =>
    have hmem := (rankRoutes_spec hranked).mem_routes (List.mem_cons_self ..)
    obtain ⟨c, hc, hattach⟩ := mem_attachAll.1 hmem
    have hcandidate : best.route.candidate = c := Market.candidate_of_attach_eq_ok hkeyed hattach
    exact ⟨best, (prepareQuote_eq_ok h).1, hcandidate ▸ hc,
      (leads_of_mem_attachAll hkeyed hlead hmem).1⟩

theorem Pins.pinnedRoutes? (h : r.Pins denomIn routes) (hne : routes ≠ [])
    (hend : ∀ c ∈ routes, c.denomOut? = some denomOut) {q : QuoteRequest} (hin : q.denomIn = denomIn)
    (hout : q.denomOut = denomOut) : r.pinnedRoutes? q = some routes := by
  obtain ⟨first, rest, rfl⟩ := List.exists_cons_of_ne_nil hne
  have hfirst := hend first (List.mem_cons_self ..)
  rw [Router.pinnedRoutes?, if_pos h.enabled, OverwriteStore.get?, hin, h.pinned, Option.bind_some,
    List.head?_cons, Option.bind_some, hfirst, hout, if_pos rfl]

/-- While routes are pinned every question they lead for is answered through one of them. -/
theorem Pins.answersFrom (h : r.Pins denomIn routes) (hkeyed : r.generation.snapshot.Keyed)
    (hne : routes ≠ []) (hlead : LeadTo denomOut routes) (now : Nat) (ctx : Context)
    {q : QuoteRequest} (hin : q.denomIn = denomIn) (hout : q.denomOut = denomOut) :
    r.AnswersFrom routes denomIn denomOut (r.ask now ctx (.best q)) := by
  have hpinned := h.pinnedRoutes? hne (fun c hc => (hlead c hc).1) hin hout
  subst hin hout
  have hanswer : r.AnswersFrom routes q.denomIn q.denomOut (r.answer now ctx q r.memory) := by
    rw [answer]
    split
    · refine ⟨fun quote hquote => ?_, rfl, rfl⟩
      cases hquote
    · rw [hpinned]
      exact ⟨fun quote hquote => quotePinned_eq_ok hkeyed hlead hquote, caches_quotePinned ..,
        searches_quotePinned ..⟩
  -- counting a served quote adds to the journal only
  rw [ask, Router.quote]
  split
  · exact hanswer
  · exact ⟨hanswer.single, hanswer.caches, hanswer.searches⟩

/-- From the moment routes are accepted until others replace them, every question between the denoms
they connect is answered through one of them. -/
theorem answersFrom_of_accepted (hr : r.Reachable)
    (haccepted : (r.overwriteRoutes denomIn routes).1 = .ok ()) :
    ∃ denomOut, routes ≠ [] ∧ (∀ c ∈ routes, c.denomOut? = some denomOut) ∧
      ∀ history, KeepsPinned denomIn (r.perform (.pin denomIn routes)) history →
        ∀ now ctx q, q.denomIn = denomIn → q.denomOut = denomOut →
          ((r.perform (.pin denomIn routes)).run history).AnswersFrom routes denomIn denomOut
            (((r.perform (.pin denomIn routes)).run history).ask now ctx (.best q)) := by
  obtain ⟨-, hnone, hpins⟩ := overwriteRoutes_eq_ok haccepted
  have hpinnable : Pinnable routes := pinnable_of_no_violations (List.isEmpty_iff.2 hnone)
  obtain ⟨denomOut, hend⟩ := hpinnable.meet
  have hne := ne_nil_of_no_violations hnone
  have hlead : LeadTo denomOut routes := fun c hc => ⟨hend c hc, hpinnable.nodup c hc⟩
  refine ⟨denomOut, hne, hend, ?_⟩
  intro history hkeeps now ctx q hin hout
  have hsound := (hr.sound.perform (.pin denomIn routes)).run history
  exact (hpins.run hkeeps).answersFrom hsound.keyed hne hlead now ctx hin hout

def bridgeRoute : CandidateRoute := ⟨[⟨1, "b"⟩, ⟨2, "c"⟩]⟩

/-- A block with a direct pool, a look into the cache, and routes pinned for another denom. -/
def bridgeHistory : List Operation :=
  [.block ⟨2, [bridgePool 1 "a" "b", bridgePool 2 "b" "c", bridgePool 3 "a" "c"], []⟩
    { transmuter := [7] }, .cached 5 "a" "c", .pin "b" [⟨[⟨2, "c"⟩]⟩]]

theorem bridge_answersFrom : ∃ quote s,
    (((bridge.perform (.pin "a" [bridgeRoute])).run bridgeHistory).ask 0 .background
      bridgeInquiry).1 = .ok quote ∧ quote.splits = [s] ∧ s.route.candidate = bridgeRoute := by
  have haccepted : (bridge.overwriteRoutes "a" [bridgeRoute]).1 = .ok () := by decide +kernel
  obtain ⟨denomOut, -, hend, hanswers⟩ := answersFrom_of_accepted reachable_bridge haccepted
  have hout : "c" = denomOut := Option.some.inj (hend bridgeRoute (List.mem_singleton_self _))
  have hkeeps : KeepsPinned "a" (bridge.perform (.pin "a" [bridgeRoute])) bridgeHistory :=
    ⟨trivial, trivial, fun h => absurd h (by decide), trivial⟩
  have hanswer := hanswers bridgeHistory hkeeps 0 .background
    ⟨.exactIn, "a", "c", 100, {}, true⟩ rfl hout
  have hok : (((bridge.perform (.pin "a" [bridgeRoute])).run bridgeHistory).answer 0 .background
      ⟨.exactIn, "a", "c", 100, {}, true⟩ Memory.empty).1.toOption.isSome = true := by decide +kernel
  obtain ⟨quote, hquote⟩ := Option.isSome_iff_exists.1 hok
  have hquote := toOption_eq_some_iff.1 hquote
  obtain ⟨s, hsplits, hmem, -⟩ := hanswer.single quote hquote
  exact ⟨quote, s, hquote, hsplits, List.mem_singleton.1 hmem⟩

end Router

end SwapRouting
