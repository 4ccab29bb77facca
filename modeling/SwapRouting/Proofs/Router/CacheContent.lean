import SwapRouting.Proofs.Router.Bypass

/-! What the caches hold.

Candidates are cached only as a configured search found them, whole and at least one, on pools that were
current at some moment since the router was created; ranked routes only if they are at least one, share
no pool and lead where they are kept for. Requests past the caches leave both as they are, and requests
whose search was cut short only read them. -/
namespace SwapRouting
set_option autoImplicit false

/-! ## Reading -/

/-- Whether a cache holds nothing new since an earlier time: every entry is as it was, or had expired and
is gone. -/
def ExpiringCache.OnlyRead {κ α : Type} [DecidableEq κ] (before : ExpiringCache κ α) (now : Nat)
    (after : ExpiringCache κ α) : Prop :=
  ∀ k, after.entry? k = before.entry? k ∨
    after.entry? k = none ∧ ∃ e, before.entry? k = some e ∧ e.expiresAt ≤ now

namespace ExpiringCache

variable {κ α : Type} [DecidableEq κ] {now : Nat} {c c' c'' : ExpiringCache κ α}

theorem OnlyRead.refl (c : ExpiringCache κ α) (now : Nat) : c.OnlyRead now c := fun _ => Or.inl rfl

theorem OnlyRead.trans (h : c.OnlyRead now c') (h' : c'.OnlyRead now c'') : c.OnlyRead now c'' := by
  intro k
  rcases h' k with hsame | ⟨hgone, e, he, hexpired⟩
  · rw [hsame]
    exact h k
  · rcases h k with hsame | ⟨hnone, -⟩
    · exact Or.inr ⟨hgone, e, hsame.symm.trans he, hexpired⟩
    · rw [hnone] at he
      cases he

theorem onlyRead_afterGet (c : ExpiringCache κ α) (now : Nat) (k : κ) :
    c.OnlyRead now (c.afterGet now k) := by
  intro k'
  rcases afterGet_cases c now k with hsame | ⟨herase, e, he, hexpired⟩
  · rw [hsame]
    exact Or.inl rfl
  · rw [herase, entry?_erase]
    by_cases hk : k = k'
    · rw [if_pos hk, ← hk]
      exact Or.inr ⟨rfl, e, he, hexpired⟩
    · rw [if_neg hk]
      exact Or.inl rfl

end ExpiringCache

/-- Whether neither cache holds anything new. -/
structure RouteCaches.OnlyRead (before : RouteCaches) (now : Nat) (after : RouteCaches) : Prop where
  candidates : before.candidates.OnlyRead now after.candidates
  ranked : before.ranked.OnlyRead now after.ranked

namespace RouteCaches

variable {p : CachePolicy} {now : Nat} {c c' : RouteCaches}

theorem OnlyRead.refl (c : RouteCaches) (now : Nat) : c.OnlyRead now c :=
  ⟨ExpiringCache.OnlyRead.refl _ now, ExpiringCache.OnlyRead.refl _ now⟩

theorem onlyRead_of_lookup (h : c.Lookup p now c') : c.OnlyRead now c' := by
  cases h with
  | candidates denomIn denomOut =>
    exact ⟨ExpiringCache.onlyRead_afterGet c.candidates now _, ExpiringCache.OnlyRead.refl _ now⟩
  | ranked k =>
    rw [afterRanked]
    split
    · exact ⟨ExpiringCache.OnlyRead.refl _ now, ExpiringCache.onlyRead_afterGet c.ranked now k⟩
    · exact OnlyRead.refl c now

theorem onlyRead_of_lookups (h : Relation.ReflTransGen (Lookup p now) c c') : c.OnlyRead now c' := by
  induction h with
  | refl => exact OnlyRead.refl c now
  | tail _ hlookup ih =>
    have hnext := onlyRead_of_lookup hlookup
    exact ⟨ih.candidates.trans hnext.candidates, ih.ranked.trans hnext.ranked⟩

end RouteCaches

/-! ## Where a request is cut short

Splitting and preparing a quote are never cut short, and ranking says so itself. -/

/-- Whether a result is not that of a request that was cut short in this stage. -/
def Uncut {α : Type} (stage : Stage) (x : Except RouterError α) : Prop := x ≠ .error (.cancelled stage)

section
variable {α β : Type} {stage : Stage} {x : Except RouterError α}

theorem uncut_error_iff {e : RouterError} :
    Uncut stage (.error e : Except RouterError α) ↔ e ≠ .cancelled stage := by
  rw [Uncut, ne_eq, Except.error.injEq]

theorem uncut_ok (a : α) : Uncut stage (.ok a : Except RouterError α) := by
  intro h
  cases h

theorem Uncut.bind {f : α → Except RouterError β} (hx : Uncut stage x)
    (hf : ∀ a, Uncut stage (f a)) : Uncut stage (x >>= f) := by
  cases x with
  | error e => exact uncut_error_iff.2 (uncut_error_iff.1 hx)
  | ok a => exact hf a

theorem Uncut.map (hx : Uncut stage x) (f : α → β) : Uncut stage (x.map f) := by
  cases x with
  | error e => exact uncut_error_iff.2 (uncut_error_iff.1 hx)
  | ok a => exact uncut_ok _

theorem uncut_quoteAll (ctx : Context) (order : SwapOrder) (step : Nat) (routes : List Route)
    (hstage : stage ≠ .ranking) : Uncut stage (quoteAll ctx order step routes).1 := by
  induction routes generalizing step with
  | nil => exact uncut_ok _
  | cons route rest ih =>
    rw [quoteAll]
    split
    · intro h
      cases h
      exact hstage rfl
    · split
      · exact uncut_error_iff.2 (by simp)
      · exact ih _
      · simp only
        split
        · exact ih _
        · exact (ih _).map _

theorem uncut_rankRoutes (ctx : Context) (preferred : List Nat) (order : SwapOrder)
    (routes : List Route) (hstage : stage ≠ .ranking) :
    Uncut stage (rankRoutes ctx preferred order routes).1 := by
  have hquoted := uncut_quoteAll ctx order 0 routes hstage
  rw [rankRoutes]
  split
  · next he =>
    rw [he] at hquoted
    exact uncut_error_iff.2 (uncut_error_iff.1 hquoted)
  · split
    · exact uncut_error_iff.2 (by simp)
    · exact uncut_ok _

theorem uncut_startingLegs (order : SwapOrder) (routes : List Route) :
    Uncut stage (startingLegs order routes).1 := by
  induction routes using startingLegs.induct order with
  | case1 routes hlt =>
    rw [startingLegs, if_pos hlt]
    exact uncut_ok _
  | case2 routes hlt shares hrange =>
    rw [startingLegs, if_neg hlt]
    simp only [shares] at hrange
    rw [if_pos hrange]
    exact uncut_error_iff.2 (by simp)
  | case3 routes hlt shares hrange hall =>
    rw [startingLegs, if_neg hlt]
    simp only [shares] at hrange hall
    rw [if_neg hrange, dif_pos hall]
    exact uncut_ok _
  | case4 routes hlt shares hrange hall ih =>
    rw [startingLegs, if_neg hlt]
    simp only [shares] at hrange hall
    rw [if_neg hrange, dif_neg hall]
    exact ih

theorem uncut_rebalance (ctx : Context) (limits : SplitLimits) (order : SwapOrder)
    (routes : List Route) : Uncut stage (rebalance ctx limits order routes).1 := by
  have hstart : Uncut stage (startingLegs order routes).1 := uncut_startingLegs order routes
  rw [rebalance]
  split
  · next he =>
    rw [he] at hstart
    exact uncut_error_iff.2 (uncut_error_iff.1 hstart)
  · exact uncut_ok _
  · exact uncut_ok _

theorem uncut_requote (order : SwapOrder) (legs : List Leg) : Uncut stage (requote order legs) := by
  induction legs with
  | nil => exact uncut_ok _
  | cons l rest ih =>
    rw [requote]
    split
    · exact ih
    · split
      · exact uncut_error_iff.2 (by simp)
      · exact uncut_error_iff.2 (by simp)
      · exact ih.map _

theorem uncut_optimize (ctx : Context) (limits : SplitLimits) (order : SwapOrder)
    (ranked : List QuotedRoute) : Uncut stage (optimize ctx limits order ranked).1 := by
  cases ranked with
  | nil => exact uncut_error_iff.2 (by simp)
  | cons best rest =>
    have hbalanced : Uncut stage (rebalance ctx limits order (splittable limits (best :: rest))).1 :=
      uncut_rebalance ctx limits order _
    rw [optimize]
    split
    · exact uncut_ok _
    · simp only
      split
      · exact uncut_ok _
      · split
        · next he =>
          rw [he] at hbalanced
          exact uncut_error_iff.2 (uncut_error_iff.1 hbalanced)
        · exact uncut_ok _
        · refine (uncut_requote order _).bind fun qs => ?_
          split
          · exact uncut_error_iff.2 (by simp)
          · split
            · exact uncut_ok _
            · exact uncut_ok _

theorem uncut_liftSwap (x : Except SwapError α) : Uncut stage (liftSwap x) := by
  cases x with
  | ok a => exact uncut_ok _
  | error e =>
    intro h
    cases e <;> cases h

theorem uncut_average (denomIn : Denom) (total : Nat) (a : Quote.Averages)
    (splits : List QuotedRoute) : Uncut stage (Quote.average denomIn total a splits).1 := by
  induction splits generalizing a with
  | nil => exact uncut_ok _
  | cons s rest ih =>
    rw [Quote.average]
    simp only
    split
    · exact uncut_error_iff.2 (by simp)
    · have hquoted : Uncut stage (s.route.quote ⟨denomIn, s.amountIn⟩).1 := uncut_liftSwap _
      split
      · next he =>
        rw [he] at hquoted
        exact uncut_error_iff.2 (uncut_error_iff.1 hquoted)
      · exact ih _

theorem uncut_prepare (method : SwapMethod) (denomIn denomOut : Denom) (scaling : Decimal)
    (splits : List QuotedRoute) :
    Uncut stage (Quote.prepare method denomIn denomOut scaling splits).1 := by
  refine (uncut_average denomIn _ _ splits).bind fun a => ?_
  have himpact : Uncut stage (orError .decimalRange (Quote.impact? a.spot a.effective)) := by
    cases Quote.impact? a.spot a.effective with
    | none => exact uncut_error_iff.2 (by simp)
    | some impact => exact uncut_ok _
  exact himpact.bind fun _ => uncut_ok _

end

namespace Router

variable {r start : Router} {now : Nat} {ctx : Context} {q : QuoteRequest} {m : Memory}

theorem lookups_rankFresh_of_cancelled
    (h : (r.rankFresh now ctx q m).1 = .error (.cancelled .search)) :
    r.Lookups now m.caches (r.rankFresh now ctx q m).2.caches := by
  rw [caches_rankFresh_of_error h]
  rw [rankFresh_fst, freshBy, ← candidates_fst] at h
  rcases bind_eq_error_iff.1 h with hsearch | ⟨found, -, hranked⟩
  · exact lookups_candidates_of_error hsearch
  · have huncut : Uncut .search (r.rankAttached ctx q found.routes) :=
      uncut_rankRoutes ctx _ q.order _ (by simp)
    exact absurd hranked (huncut.bind fun _ => uncut_ok _)

theorem lookups_rankRequest_of_cancelled
    (h : (r.rankRequest now ctx q m).1 = .error (.cancelled .search)) :
    r.Lookups now m.caches (r.rankRequest now ctx q m).2.caches := by
  have hlook : r.Lookups now m.caches (r.rankKept now ctx q m).2.caches := by
    rw [caches_rankKept]
    exact .single (.ranked q.rankedKey)
  rw [rankRequest] at h ⊢
  split at h
  · next huse =>
    rw [if_pos huse]
    simp only at h ⊢
    split at h
    · exact hlook
    · exact hlook.trans (lookups_rankFresh_of_cancelled h)
  · next huse =>
    rw [if_neg huse]
    exact lookups_rankFresh_of_cancelled h

/-- Once routes are ranked, nothing is cut short any more. -/
theorem uncut_quoteOf (r : Router) (ctx : Context) (q : QuoteRequest) (ranked : List QuotedRoute)
    (stage : Stage) : Uncut stage (r.quoteOf ctx q ranked) := by
  refine (uncut_optimize ctx _ q.order ranked).bind fun splits => ?_
  exact (uncut_prepare q.method q.denomIn q.denomOut _ splits).map _

theorem onlyRead_ask_of_cancelled
    (h : (r.ask now ctx (.best q)).1 = .error (.cancelled .search)) :
    r.memory.caches.OnlyRead now (r.ask now ctx (.best q)).2.caches := by
  have hanswer : (r.answer now ctx q r.memory).1 = .error (.cancelled .search) := h
  have hcaches : (r.ask now ctx (.best q)).2.caches = (r.answer now ctx q r.memory).2.caches :=
    caches_quote r now ctx q
  rw [hcaches]
  cases hvalid : r.validateRequest q.denomIn q.denomOut q.amount with
  | error e =>
    rw [answer_of_invalid hvalid]
    exact RouteCaches.OnlyRead.refl _ now
  | ok _ =>
    cases hpinned : r.pinnedRoutes? q with
    | some pinned =>
      rw [answer_of_pinned hvalid hpinned, caches_quotePinned]
      exact RouteCaches.OnlyRead.refl _ now
    | none =>
      rw [answer_of_ranked hvalid hpinned] at hanswer ⊢
      rw [quoteRanked_fst, ← rankRequest_fst] at hanswer
      rw [caches_quoteRanked]
      -- the search was cut short while ranking, for nothing is searched for later
      rcases bind_eq_error_iff.1 hanswer with hranked | ⟨qs, -, hquote⟩
      · exact RouteCaches.onlyRead_of_lookups (lookups_rankRequest_of_cancelled hranked)
      · exact absurd hquote (uncut_quoteOf r ctx q qs .search)

/-! ## What is stored -/

/-- Whether both caches hold what they should, where `found` says this of candidates. -/
structure Holds (found : DenomPair → StoredCandidates → Prop) (c : RouteCaches) : Prop where
  candidates : c.candidates.All found
  ranked : c.ranked.All fun key routes => routes ≠ [] ∧ Apart key.denomOut routes

section
variable {found : DenomPair → StoredCandidates → Prop} {c c' : RouteCaches}

theorem Holds.access
    (hfound : ∀ denomIn denomOut routes, Searched r.config r.generation.index denomIn denomOut routes →
      found (DenomPair.of denomIn denomOut) ⟨denomIn, routes⟩)
    (h : Holds found c) (haccess : r.Access now c c') : Holds found c' := by
  cases haccess with
  | lookup hlookup =>
    cases hlookup with
    | candidates denomIn denomOut => exact ⟨h.candidates.afterGet now _, h.ranked⟩
    | ranked k =>
      rw [RouteCaches.afterRanked]
      split
      · exact ⟨h.candidates, h.ranked.afterGet now k⟩
      · exact h
  | storeCandidates _ hsearched =>
    exact ⟨h.candidates.insert (hfound _ _ _ hsearched) now _, h.ranked⟩
  | storeRanked _ hne hapart =>
    rw [RouteCaches.setRanked]
    split
    · exact ⟨h.candidates, h.ranked.insert ⟨hne, hapart⟩ now _⟩
    · exact h

theorem Holds.accesses
    (hfound : ∀ denomIn denomOut routes, Searched r.config r.generation.index denomIn denomOut routes →
      found (DenomPair.of denomIn denomOut) ⟨denomIn, routes⟩)
    (h : Holds found c) (haccesses : r.Accesses now c c') : Holds found c' := by
  induction haccesses with
  | refl => exact h
  | tail _ haccess ih => exact ih.access hfound haccess

theorem holds_empty (found : DenomPair → StoredCandidates → Prop) : Holds found RouteCaches.empty :=
  ⟨ExpiringCache.all_empty, ExpiringCache.all_empty⟩

theorem Holds.mono {found' : DenomPair → StoredCandidates → Prop}
    (hmono : ∀ pair s, found pair s → found' pair s) (h : Holds found c) : Holds found' c :=
  ⟨fun pair e he => hmono pair e.value (h.candidates pair e he), h.ranked⟩

theorem Holds.perform (hsound : r.Sound)
    (hfound : ∀ denomIn denomOut routes, Searched r.config r.generation.index denomIn denomOut routes →
      found (DenomPair.of denomIn denomOut) ⟨denomIn, routes⟩)
    (h : Holds found r.memory.caches) (op : Operation) :
    Holds found (r.perform op).memory.caches := by
  cases hop : op.askedAt? with
  | some now => exact h.accesses hfound (accesses_perform hsound hop)
  | none =>
    cases op with
    | block block whitelist => exact h
    | pin denomIn routes =>
      rw [Router.perform, overwriteRoutes]
      split
      · exact h
      · exact h
    | load =>
      rw [Router.perform, loadOverwrites]
      split
      · exact h
      · exact h
    | files directory => exact h
    | reopen => exact holds_empty found
    | _ => cases hop

end

/-! ## Histories -/

/-- Whether stored candidates are what the configured search gave, from their origin to the other denom
of their pair, at some moment of a history. -/
def FoundIn (start : Router) (history : List Operation) (pair : DenomPair) (s : StoredCandidates) :
    Prop :=
  ∃ earlier other, earlier <+: history ∧ pair = DenomPair.of s.origin other ∧
    Searched start.config (start.run earlier).generation.index s.origin other s.routes

theorem FoundIn.mono {earlier history : List Operation} (hle : earlier <+: history)
    {pair : DenomPair} {s : StoredCandidates} (h : FoundIn start earlier pair s) :
    FoundIn start history pair s := by
  obtain ⟨moment, other, hmoment, hpair, hsearched⟩ := h
  exact ⟨moment, other, hmoment.trans hle, hpair, hsearched⟩

theorem holds_run (hfresh : start.Fresh) (history : List Operation) :
    Holds (FoundIn start history) (start.run history).memory.caches := by
  -- from the end, since what was found before the last operation stays found in the longer history
  induction history using List.reverseRecOn with
  | nil =>
    show Holds _ start.memory.caches
    rw [hfresh.holdsNothing.2]
    exact holds_empty _
  | append_singleton earlier op ih =>
    have hle : earlier <+: earlier ++ [op] := List.prefix_append ..
    have hrun : start.run (earlier ++ [op]) = (start.run earlier).perform op := by
      rw [run, List.foldl_append]
      rfl
    rw [hrun]
    refine Holds.perform (hfresh.sound.run earlier) ?_ (ih.mono fun _ _ => FoundIn.mono hle) op
    intro denomIn denomOut routes hsearched
    rw [(sameSettings_run start earlier).config] at hsearched
    exact ⟨earlier, denomOut, hle, rfl, hsearched⟩

/-- Whether requests past the caches leave them as they are, and requests whose search is cut short only
read them. -/
structure SparesCaches (r : Router) : Prop where
  quotesPast : ∀ now ctx q, QuoteOptions.Bypass q.options →
    (r.ask now ctx (.best q)).2.caches = r.memory.caches
  candidatesPast : ∀ now ctx denomIn denomOut o, QuoteOptions.Bypass o →
    (r.candidates now ctx denomIn denomOut o r.memory).2.caches = r.memory.caches
  quotesCut : ∀ now ctx q, (r.ask now ctx (.best q)).1 = .error (.cancelled .search) →
    r.memory.caches.OnlyRead now (r.ask now ctx (.best q)).2.caches
  candidatesCut : ∀ now ctx denomIn denomOut o,
    (r.candidates now ctx denomIn denomOut o r.memory).1 = .error (.cancelled .search) →
    r.memory.caches.OnlyRead now (r.candidates now ctx denomIn denomOut o r.memory).2.caches

/-- Whatever its history, a router caches candidates only as a configured search found them on pools of
its past, and ranked routes only where they lead, with no pool twice; requests past the caches and
requests cut short in their search add nothing. -/
theorem caches_run (hfresh : start.Fresh) (history : List Operation) :
    Holds (FoundIn start history) (start.run history).memory.caches ∧
      (start.run history).SparesCaches := by
  refine ⟨holds_run hfresh history, ?_, ?_, ?_, ?_⟩
  · intro now ctx q hq
    exact caches_ask_of_bypass hq _ now ctx
  · intro now ctx denomIn denomOut o ho
    exact caches_candidates_of_bypass ho _ now ctx denomIn denomOut _
  · intro now ctx q hcancelled
    exact onlyRead_ask_of_cancelled hcancelled
  · intro now ctx denomIn denomOut o hcancelled
    exact RouteCaches.onlyRead_of_lookups (lookups_candidates_of_error hcancelled)

/-- The history of a router that was asked for the best of two equal pools. -/
def twinHistory : List Operation :=
  [.block ⟨1, [twinPool 1, twinPool 2], []⟩ {}, .ask 0 .background (.best twinRequest)]

theorem twins_caches_run :
    (bridgeStart.run twinHistory).memory.caches.candidates.isEmpty = false ∧
      (bridgeStart.run twinHistory).memory.caches.ranked.isEmpty = false ∧
      Holds (FoundIn bridgeStart twinHistory) (bridgeStart.run twinHistory).memory.caches ∧
      (bridgeStart.run twinHistory).SparesCaches := by
  have hfresh : bridgeStart.Fresh :=
    ⟨bridgeStart.config, bridgeStart.tokens, true, false, none, by decide +kernel⟩
  have hcaches : (bridgeStart.run twinHistory).memory.caches
      = (twins.rankRequest 0 .background twinRequest twins.memory).2.caches := caches_twins true
  refine ⟨?_, ?_, caches_run hfresh twinHistory⟩
  · rw [hcaches]
    decide +kernel
  · rw [hcaches]
    decide +kernel

end Router

end SwapRouting
