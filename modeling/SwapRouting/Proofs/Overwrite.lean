import SwapRouting.Overwrite.Store
import SwapRouting.Proofs.Candidate
import SwapRouting.Proofs.Dict

/-! What pinned routes satisfy.

Routes are pinned only after they were checked, when they are accepted as well as when they are read
back from a file. So at any time all routes pinned for a denom end in one denom, and none of them
repeats a pool. -/
namespace SwapRouting
set_option autoImplicit false

/-! ## Routes without faults -/

/-- Routes that end in one denom and repeat no pool. -/
structure Pinnable (routes : List CandidateRoute) : Prop where
  meet : ∃ d, ∀ r ∈ routes, r.denomOut? = some d
  nodup : ∀ r ∈ routes, r.poolIds.Nodup

/-- Whether the snapshot has the pools of all hops, each of which holds the denom that goes in and the one
that comes out. -/
def Held (s : PoolSnapshot) (denomIn : Denom) : List Hop → Prop
  | [] => True
  | h :: r => (∃ p, s.get? h.pool = some p ∧ p.holds denomIn ∧ p.holds h.denomOut) ∧
      Held s h.denomOut r

section
variable {s : PoolSnapshot} {denomIn : Denom} {route : Nat}

theorem denomViolations_eq_nil_iff {p : Pool} {denom : Denom} :
    denomViolations route p denom = [] ↔ p.holds denom := by
  unfold denomViolations
  split
  · next h => exact iff_of_true rfl h
  · next h => exact iff_of_false (List.cons_ne_nil _ _) h

theorem hopViolations_eq_nil_iff {seen : List Nat} {h : Hop} :
    hopViolations s route seen denomIn h = [] ↔ h.pool ∉ seen ∧
      ∃ p, s.get? h.pool = some p ∧ p.holds denomIn ∧ p.holds h.denomOut := by
  rw [hopViolations, List.append_eq_nil_iff]
  refine and_congr ?_ ?_
  · by_cases hseen : h.pool ∈ seen <;> simp [hseen]
  · cases s.get? h.pool with
    | none => simp
    | some p => simp [denomViolations_eq_nil_iff]

theorem hopsViolations_eq_nil_iff {seen : List Nat} {hops : List Hop} :
    hopsViolations s route seen denomIn hops = [] ↔
      (hops.map Hop.pool).Nodup ∧ List.Disjoint (hops.map Hop.pool) seen ∧ Held s denomIn hops := by
  induction hops generalizing seen denomIn with
  | nil => simp [hopsViolations, Held]
  | cons x rest ih =>
    rw [hopsViolations, List.append_eq_nil_iff, hopViolations_eq_nil_iff, ih, List.map_cons,
      List.nodup_cons, List.disjoint_cons_left, List.disjoint_cons_right, Held]
    tauto

theorem endViolations_eq_nil_iff {expected? : Option Denom} {actual : Denom} :
    endViolations route expected? actual = [] ↔ ∀ e, expected? = some e → e = actual := by
  cases expected? with
  | none => simp [endViolations]
  | some e => simp [endViolations]

theorem routesViolations_eq_nil_iff {expected? : Option Denom} {routes : List CandidateRoute} :
    routesViolations s denomIn route expected? routes = [] ↔
      ∃ d, (∀ e, expected? = some e → e = d) ∧
        ∀ c ∈ routes, c.denomOut? = some d ∧ c.poolIds.Nodup ∧ Held s denomIn c.hops := by
  induction routes generalizing route expected? with
  | nil =>
    refine iff_of_true rfl ⟨expected?.getD "", ?_, nofun⟩
    rintro e rfl
    rfl
  | cons c rest ih =>
    rw [routesViolations]
    constructor
    · intro h
      split at h
      · cases h
      · next actual hactual =>
        rw [List.append_eq_nil_iff, List.append_eq_nil_iff, endViolations_eq_nil_iff,
          hopsViolations_eq_nil_iff] at h
        obtain ⟨⟨⟨hnodup, -, hheld⟩, hend⟩, hrest⟩ := h
        obtain ⟨d, hd, hall⟩ := ih.1 hrest
        have hsame : actual = d := by
          have hexpected := hd _ rfl
          cases expected? with
          | none => exact hexpected
          | some e => exact (hend e rfl).symm.trans hexpected
        subst hsame
        refine ⟨actual, hend, ?_⟩
        intro x hx
        rcases List.mem_cons.1 hx with rfl | hx
        · exact ⟨hactual, hnodup, hheld⟩
        · exact hall x hx
    · rintro ⟨d, hd, hall⟩
      obtain ⟨hend, hnodup, hheld⟩ := hall c (List.mem_cons_self ..)
      simp only [hend]
      rw [List.append_eq_nil_iff, List.append_eq_nil_iff, endViolations_eq_nil_iff,
        hopsViolations_eq_nil_iff]
      refine ⟨⟨⟨hnodup, List.disjoint_nil_right _, hheld⟩, hd⟩, ih.2 ⟨d, ?_, ?_⟩⟩
      · intro e he
        rw [← Option.some.inj he]
        cases expected? with
        | none => rfl
        | some e' => exact hd e' rfl
      · exact fun x hx => hall x (List.mem_cons_of_mem _ hx)

/-- What the check of pinned routes asks for: there are routes, all of them end in one denom, none
repeats a pool, and the snapshot has their pools with the denoms of the hops. -/
theorem overwriteViolations_eq_nil_iff {routes : List CandidateRoute} :
    overwriteViolations s denomIn routes = [] ↔ routes ≠ [] ∧
      ∃ d, ∀ c ∈ routes, c.denomOut? = some d ∧ c.poolIds.Nodup ∧ Held s denomIn c.hops := by
  rw [overwriteViolations]
  split
  · next hempty => simp [List.isEmpty_iff.1 hempty]
  · next hne =>
    rw [routesViolations_eq_nil_iff]
    have hroutes : routes ≠ [] := by simpa using hne
    simp [hroutes]

theorem pinnable_of_no_violations {routes : List CandidateRoute}
    (h : (overwriteViolations s denomIn routes).isEmpty = true) : Pinnable routes := by
  obtain ⟨-, d, hall⟩ := overwriteViolations_eq_nil_iff.1 (List.isEmpty_iff.1 h)
  exact ⟨⟨d, fun c hc => (hall c hc).1⟩, fun c hc => (hall c hc).2.1⟩

/-- Routes without faults are at least one. -/
theorem ne_nil_of_no_violations {routes : List CandidateRoute}
    (h : overwriteViolations s denomIn routes = []) : routes ≠ [] :=
  (overwriteViolations_eq_nil_iff.1 h).1

theorem Held.pools {hops : List Hop} (h : Held s denomIn hops) :
    ∀ hop ∈ hops, ∃ p, s.get? hop.pool = some p := by
  induction hops generalizing denomIn with
  | nil => exact nofun
  | cons x rest ih =>
    obtain ⟨⟨p, hp, -⟩, hrest⟩ := h
    intro hop hhop
    rcases List.mem_cons.1 hhop with rfl | hhop
    · exact ⟨p, hp⟩
    · exact ih hrest hop hhop

/-- Routes without faults go through pools of the snapshot. -/
theorem pools_of_no_violations {routes : List CandidateRoute}
    (h : overwriteViolations s denomIn routes = []) :
    ∀ c ∈ routes, ∀ id ∈ c.poolIds, ∃ p, s.get? id = some p := by
  obtain ⟨-, d, hall⟩ := overwriteViolations_eq_nil_iff.1 h
  intro c hc id hid
  obtain ⟨hop, hhop, rfl⟩ := List.mem_map.1 hid
  exact (hall c hc).2.2.pools hop hhop

end

/-! ## The store -/

namespace OverwriteStore

/-- Whether the routes pinned for every denom could be pinned. -/
def Sound (s : OverwriteStore) : Prop :=
  ∀ denom routes, s.pinned.get? denom = some routes → Pinnable routes

theorem sound_opened (persistent : Bool) (directory : Option Directory) :
    (opened persistent directory).Sound := by
  intro denom routes h
  cases h

theorem Sound.install {s : OverwriteStore} (h : s.Sound) {denomIn : Denom}
    {routes : List CandidateRoute} (hroutes : Pinnable routes) :
    (s.install denomIn routes).Sound := by
  intro denom found hfound
  rw [OverwriteStore.install, Dict.get?_insert] at hfound
  split at hfound
  · rw [Option.some.injEq] at hfound
    exact hfound ▸ hroutes
  · exact h denom found hfound

theorem pinned_write (s : OverwriteStore) (denomIn : Denom) (routes : List CandidateRoute) :
    (s.write denomIn routes).2.pinned = s.pinned := by
  rw [write]
  simp only
  split <;> rfl

theorem Sound.of_pinned {s t : OverwriteStore} (h : s.Sound) (ht : t.pinned = s.pinned) :
    t.Sound := by
  intro denom routes hfound
  rw [ht] at hfound
  exact h denom routes hfound

/-- Either routes are refused and nothing else is pinned than before, or they have no faults and are
pinned for their denom. -/
theorem overwrite_cases (s : OverwriteStore) (snapshot : PoolSnapshot) (denomIn : Denom)
    (routes : List CandidateRoute) :
    ((∃ e, (s.overwrite snapshot denomIn routes).1 = .error e) ∧
        (s.overwrite snapshot denomIn routes).2.pinned = s.pinned) ∨
      ((s.overwrite snapshot denomIn routes).1 = .ok () ∧
        overwriteViolations snapshot denomIn routes = [] ∧
        (s.overwrite snapshot denomIn routes).2.pinned = s.pinned.insert denomIn routes) := by
  rw [OverwriteStore.overwrite]
  simp only
  split
  · exact Or.inl ⟨⟨_, rfl⟩, rfl⟩
  · next hviolations =>
    have hnone : overwriteViolations snapshot denomIn routes = [] := by simpa using hviolations
    split
    · split
      · exact Or.inl ⟨⟨_, rfl⟩, pinned_write s denomIn routes⟩
      · exact Or.inr ⟨rfl, hnone,
          congrArg (Dict.insert · denomIn routes) (pinned_write s denomIn routes)⟩
    · exact Or.inr ⟨rfl, hnone, rfl⟩

theorem Sound.overwrite {s : OverwriteStore} (h : s.Sound) (snapshot : PoolSnapshot)
    (denomIn : Denom) (routes : List CandidateRoute) :
    (s.overwrite snapshot denomIn routes).2.Sound := by
  rcases overwrite_cases s snapshot denomIn routes with ⟨-, hpinned⟩ | ⟨-, hnone, hpinned⟩
  · exact h.of_pinned hpinned
  · have hroutes : Pinnable routes := pinnable_of_no_violations (List.isEmpty_iff.2 hnone)
    exact (h.install hroutes).of_pinned hpinned

theorem Sound.loadFiles {s : OverwriteStore} (h : s.Sound) (snapshot : PoolSnapshot)
    (loaded : Nat) (files : List (String × String)) :
    (loadFiles snapshot s loaded files).2.Sound := by
  induction files generalizing s loaded with
  | nil => exact h
  | cons file rest ih =>
    rw [OverwriteStore.loadFiles]
    split
    · exact h
    · split
      · next hviolations => exact ih (h.install (pinnable_of_no_violations hviolations)) _
      · exact ih h _

theorem Sound.load {s : OverwriteStore} (h : s.Sound) (snapshot : PoolSnapshot) :
    (s.load snapshot).2.Sound := by
  rw [OverwriteStore.load]
  split
  · exact h.loadFiles snapshot 0 _
  · exact h

/-- What is pinned for a pair of denoms leads to the second one. -/
theorem Sound.get? {s : OverwriteStore} (h : s.Sound) {denomIn denomOut : Denom}
    {routes : List CandidateRoute} (hget : s.get? denomIn denomOut = some routes) :
    LeadTo denomOut routes := by
  obtain ⟨pinned, hpinned, hif⟩ := Option.bind_eq_some_iff.1 hget
  split at hif
  · next hhead =>
    rw [Option.some.injEq] at hif
    subst hif
    obtain ⟨first, hfirst, hout⟩ := Option.bind_eq_some_iff.1 hhead
    have hpinnable := h denomIn pinned hpinned
    obtain ⟨d, hd⟩ := hpinnable.meet
    rw [hd first (List.mem_of_head? hfirst), Option.some.injEq] at hout
    intro r hr
    exact ⟨hout ▸ hd r hr, hpinnable.nodup r hr⟩
  · cases hif

end OverwriteStore

end SwapRouting
