import SwapRouting.Proofs.Overwrite.Persistence

/-! Requests to pin routes that are refused.

Routes are refused for their faults and, by a store that keeps files, for a denom whose file name is too
long; for nothing else. A refused request leaves all answers and all files of the store as they were,
whatever happened to the store before. One that is accepted changes the answers for its own denom, and the
file of this denom. -/
namespace SwapRouting
set_option autoImplicit false

namespace OverwriteStore

variable {s t : OverwriteStore} {snapshot : PoolSnapshot} {denomIn : Denom} {routes : List CandidateRoute}

/-- Whether a store answers as another one does and has the same files. -/
structure SameContent (s t : OverwriteStore) : Prop where
  size : t.size = s.size
  get? : ∀ denomIn denomOut, t.get? denomIn denomOut = s.get? denomIn denomOut
  files : t.files = s.files

theorem sameContent_of_pinned (hpinned : t.pinned = s.pinned) (hfiles : t.files = s.files) :
    s.SameContent t := by
  refine ⟨congrArg Dict.size hpinned, fun denomIn denomOut => ?_, hfiles⟩
  rw [OverwriteStore.get?, hpinned, OverwriteStore.get?]

/-- Why a store refuses routes. -/
inductive Refuses (s : OverwriteStore) (snapshot : PoolSnapshot) (denomIn : Denom)
    (routes : List CandidateRoute) : RouterError → Prop
  | faults (h : overwriteViolations snapshot denomIn routes ≠ []) :
    Refuses s snapshot denomIn routes (.invalidOverwrite (overwriteViolations snapshot denomIn routes))
  | fileName (hvalid : overwriteViolations snapshot denomIn routes = []) (hpersistent : s.persistent = true)
    (hlong : longestFileName < (overwriteFileName denomIn).utf8ByteSize) :
    Refuses s snapshot denomIn routes (.storage (.nameTooLong (overwriteFileName denomIn)))

/-- Whether these routes are what a store answers for a denom: to the denom in which they end, and to no
other. -/
def Answers (s : OverwriteStore) (denomIn : Denom) (routes : List CandidateRoute) : Prop :=
  ∃ d, (∀ c ∈ routes, c.denomOut? = some d) ∧
    ∀ denomOut, s.get? denomIn denomOut = if denomOut = d then some routes else none

/-- What a store has become by pinning routes. -/
structure Pins (s : OverwriteStore) (denomIn : Denom) (routes : List CandidateRoute) (t : OverwriteStore) :
    Prop where
  others : ∀ denom denomOut, denom ≠ denomIn → t.get? denom denomOut = s.get? denom denomOut
  own : t.Answers denomIn routes
  files : t.files = if s.persistent then
      s.files.insert (overwriteFileName denomIn) (OverwriteRecord.text ⟨denomIn, routes⟩)
    else s.files

theorem answers_of_pinned (hvalid : overwriteViolations snapshot denomIn routes = [])
    (hpinned : s.pinned.get? denomIn = some routes) : s.Answers denomIn routes := by
  obtain ⟨hne, d, hall⟩ := overwriteViolations_eq_nil_iff.1 hvalid
  obtain ⟨first, rest, rfl⟩ := List.exists_cons_of_ne_nil hne
  refine ⟨d, fun c hc => (hall c hc).1, fun denomOut => ?_⟩
  rw [OverwriteStore.get?, hpinned, Option.bind_some, List.head?_cons, Option.bind_some,
    (hall first (List.mem_cons_self ..)).1]
  simp only [Option.some.injEq, eq_comm]

theorem pins_of_pinned_insert (hvalid : overwriteViolations snapshot denomIn routes = [])
    (hpinned : t.pinned = s.pinned.insert denomIn routes)
    (hfiles : t.files = if s.persistent then
        s.files.insert (overwriteFileName denomIn) (OverwriteRecord.text ⟨denomIn, routes⟩)
      else s.files) : s.Pins denomIn routes t := by
  refine ⟨fun denom denomOut hdenom => ?_, answers_of_pinned hvalid ?_, hfiles⟩
  · rw [OverwriteStore.get?, hpinned, Dict.get?_insert, if_neg (Ne.symm hdenom), OverwriteStore.get?]
  · rw [hpinned, Dict.get?_insert, if_pos rfl]

/-! ## Writing a file -/

/-- A file is written, or its name is too long and the files stay as they are. -/
theorem write_cases (s : OverwriteStore) (denomIn : Denom) (routes : List CandidateRoute) :
    (longestFileName < (overwriteFileName denomIn).utf8ByteSize ∧
        (s.write denomIn routes).1 = .error (.nameTooLong (overwriteFileName denomIn)) ∧
        (s.write denomIn routes).2.files = s.files) ∨
      (¬ longestFileName < (overwriteFileName denomIn).utf8ByteSize ∧ (s.write denomIn routes).1 = .ok () ∧
        (s.write denomIn routes).2.files
          = s.files.insert (overwriteFileName denomIn) (OverwriteRecord.text ⟨denomIn, routes⟩)) := by
  by_cases hlong : longestFileName < (overwriteFileName denomIn).utf8ByteSize
  · simp only [write, if_pos hlong]
    exact Or.inl ⟨hlong, trivial, rfl⟩
  · simp only [write, if_neg hlong]
    exact Or.inr ⟨hlong, trivial, rfl⟩

/-! ## Requests -/

theorem overwrite_of_faults (h : overwriteViolations snapshot denomIn routes ≠ []) :
    s.overwrite snapshot denomIn routes
      = (.error (.invalidOverwrite (overwriteViolations snapshot denomIn routes)), s) := by
  have hempty : (!(overwriteViolations snapshot denomIn routes).isEmpty) = true := by simpa using h
  rw [OverwriteStore.overwrite]
  exact if_pos hempty

/-- A request is refused for a reason and changes nothing, or there is none and the routes are pinned. -/
theorem refused_or_pinned (s : OverwriteStore) (snapshot : PoolSnapshot) (denomIn : Denom)
    (routes : List CandidateRoute) :
    (∃ e, s.Refuses snapshot denomIn routes e ∧ (s.overwrite snapshot denomIn routes).1 = .error e ∧
        s.SameContent (s.overwrite snapshot denomIn routes).2) ∨
      ((∀ e, ¬ s.Refuses snapshot denomIn routes e) ∧ (s.overwrite snapshot denomIn routes).1 = .ok () ∧
        s.Pins denomIn routes (s.overwrite snapshot denomIn routes).2) := by
  by_cases hvalid : overwriteViolations snapshot denomIn routes = []
  case neg =>
    rw [overwrite_of_faults hvalid]
    exact Or.inl ⟨_, .faults hvalid, rfl, sameContent_of_pinned rfl rfl⟩
  case pos =>
    rw [OverwriteStore.overwrite]
    simp only [hvalid, List.isEmpty_nil, Bool.not_true, Bool.false_eq_true, if_false]
    cases hpersistent : s.persistent with
    | false =>
      refine Or.inr ⟨?_, rfl, pins_of_pinned_insert hvalid rfl ?_⟩
      · rintro e (hfaults | ⟨-, h, -⟩)
        · exact hfaults hvalid
        · rw [hpersistent] at h
          cases h
      · rw [hpersistent]
        rfl
    | true =>
      rcases write_cases s denomIn routes with ⟨hlong, hresult, hfiles⟩ | ⟨hshort, hresult, hfiles⟩
      · simp only [hresult, if_true]
        exact Or.inl ⟨_, .fileName hvalid hpersistent hlong, rfl,
          sameContent_of_pinned (pinned_write s denomIn routes) hfiles⟩
      · simp only [hresult, if_true]
        refine Or.inr ⟨?_, trivial, pins_of_pinned_insert hvalid ?_ ?_⟩
        · rintro e (hfaults | ⟨-, -, hlong⟩)
          · exact hfaults hvalid
          · exact hshort hlong
        · exact congrArg (Dict.insert · denomIn routes) (pinned_write s denomIn routes)
        · rw [hpersistent]
          exact hfiles

end OverwriteStore

end SwapRouting
