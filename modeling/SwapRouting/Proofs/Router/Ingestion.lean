import Mathlib.Data.List.Induction
import Mathlib.Order.Basic
import SwapRouting.Router.Ingestion

/-! Following a chain never goes back.

What a router has come to after some blocks decides what one more block does to it: it is taken or left
out. From that one step follows, along any blocks, that the announced heights ascend and that the last of
them is the height of the current generation. The height at the start stands in front of them, since it is
current as long as nothing was announced. -/
namespace SwapRouting
set_option autoImplicit false

namespace Router

variable (r : Router)

/-! ## One block -/

theorem accepts_iff (b : Block) :
    r.accepts b ↔ r.generation.height = 0 ∨ r.generation.height < b.height := by
  simp [accepts]

theorem accepts_eq_false_iff (b : Block) :
    r.accepts b = false ↔ b.height ≤ r.generation.height ∧ r.generation.height ≠ 0 := by
  rw [Bool.eq_false_iff, ne_eq, accepts_iff]
  omega

theorem follow_append (fetched rest : List Fetched) :
    r.follow (fetched ++ rest)
      = (((r.follow fetched).1.follow rest).1,
        (r.follow fetched).2 ++ ((r.follow fetched).1.follow rest).2) := by
  induction fetched generalizing r with
  | nil => rfl
  | cons f fetched ih =>
    rw [List.cons_append, follow, follow]
    split
    · simp only [ih, List.cons_append]
    · exact ih r

/-- The last block of several is taken or left out by what the others have led to. -/
theorem follow_concat (fetched : List Fetched) (f : Fetched) :
    r.follow (fetched ++ [f])
      = if (r.follow fetched).1.accepts f.block then
          ((r.follow fetched).1.applyBlock f.block f.whitelist,
            (r.follow fetched).2 ++ [f.block.height])
        else r.follow fetched := by
  rw [follow_append]
  simp only [follow]
  split
  · rfl
  · rw [List.append_nil]

theorem config_follow (fetched : List Fetched) : (r.follow fetched).1.config = r.config := by
  induction fetched using List.reverseRecOn with
  | nil => rfl
  | append_singleton fetched f ih =>
    rw [follow_concat]
    split
    · exact ih
    · exact ih

/-! ## Any blocks -/

/-- The heights that were current, one after the other. -/
def heights (fetched : List Fetched) : List Nat := r.generation.height :: (r.follow fetched).2

/-- Where a router stands: the height of the current generation is the last one there was, and no height
is followed by a lower one, nor one other than zero by itself. -/
structure UpToDate (fetched : List Fetched) : Prop where
  last : (r.heights fetched).getLast? = some (r.follow fetched).1.generation.height
  ascending : (r.heights fetched).Pairwise fun h h' => h ≤ h' ∧ (h ≠ 0 → h < h')

variable {r}

theorem UpToDate.le_height {fetched : List Fetched} (h : r.UpToDate fetched) {n : Nat}
    (hn : n ∈ r.heights fetched) : n ≤ (r.follow fetched).1.generation.height := by
  obtain ⟨before, hsplit⟩ := List.getLast?_eq_some_iff.1 h.last
  have hascending := h.ascending
  rw [hsplit] at hn hascending
  rcases List.mem_append.1 hn with hn | hn
  · exact ((List.pairwise_append.1 hascending).2.2 n hn _ (List.mem_singleton_self _)).1
  · exact Nat.le_of_eq (List.mem_singleton.1 hn)

theorem UpToDate.concat {fetched : List Fetched} (h : r.UpToDate fetched) (f : Fetched) :
    r.UpToDate (fetched ++ [f]) := by
  by_cases haccepts : (r.follow fetched).1.accepts f.block
  · have hstep : r.follow (fetched ++ [f])
        = ((r.follow fetched).1.applyBlock f.block f.whitelist,
          (r.follow fetched).2 ++ [f.block.height]) := by
      rw [follow_concat, if_pos haccepts]
    have hheights : r.heights (fetched ++ [f]) = r.heights fetched ++ [f.block.height] := by
      unfold heights
      rw [hstep, List.cons_append]
    constructor
    · rw [hheights, hstep, List.getLast?_concat]
      rfl
    · rw [hheights, List.pairwise_append]
      refine ⟨h.ascending, List.pairwise_singleton _ _, ?_⟩
      intro n hn m hm
      have hle := h.le_height hn
      rw [accepts_iff] at haccepts
      rw [List.mem_singleton.1 hm]
      omega
  · have hstep : r.follow (fetched ++ [f]) = r.follow fetched := by
      rw [follow_concat, if_neg haccepts]
    have hheights : r.heights (fetched ++ [f]) = r.heights fetched := by
      unfold heights
      rw [hstep]
    constructor
    · rw [hheights, hstep]
      exact h.last
    · rw [hheights]
      exact h.ascending

theorem upToDate_follow (r : Router) (fetched : List Fetched) : r.UpToDate fetched := by
  induction fetched using List.reverseRecOn with
  | nil => exact ⟨rfl, List.pairwise_singleton _ _⟩
  | append_singleton fetched f ih => exact ih.concat f

/-- What one more block does after any others. A block that is not newer than a height changes nothing;
every other one makes its own generation the current one and is announced once. -/
structure TakesNewer (r : Router) (fetched : List Fetched) : Prop where
  stale : ∀ f : Fetched, f.block.height ≤ (r.follow fetched).1.generation.height →
    (r.follow fetched).1.generation.height ≠ 0 → r.follow (fetched ++ [f]) = r.follow fetched
  newer : ∀ f : Fetched, ¬ (f.block.height ≤ (r.follow fetched).1.generation.height ∧
      (r.follow fetched).1.generation.height ≠ 0) →
    r.follow (fetched ++ [f])
      = ({ (r.follow fetched).1 with generation := Generation.build f.block r.config f.whitelist },
        (r.follow fetched).2 ++ [f.block.height])

theorem follow_neverGoesBack (r : Router) (fetched : List Fetched) :
    r.TakesNewer fetched ∧ r.UpToDate fetched := by
  refine ⟨⟨?_, ?_⟩, upToDate_follow r fetched⟩
  · intro f hle hne
    have hleft := ((r.follow fetched).1.accepts_eq_false_iff f.block).2 ⟨hle, hne⟩
    rw [follow_concat, hleft]
    rfl
  · intro f hnewer
    have htaken : (r.follow fetched).1.accepts f.block := by
      rw [← Bool.not_eq_false, accepts_eq_false_iff]
      exact hnewer
    rw [follow_concat, if_pos htaken, ← config_follow r fetched]
    rfl

example : (create {} ⟨Dict.empty⟩ false (OverwriteStore.opened false none)).toOption.map
    (fun r => (ingest {} r ([0, 3, 2, 3, 5, 0].map fun n => ⟨n, [], []⟩)).2) = some [0, 3, 5] := by
  rfl

end Router

end SwapRouting
