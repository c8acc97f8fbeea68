/-
  MacroSpan.Position.Listing

  Lists of positions: sorting, neighbour comparisons, least and greatest member.

  `sorted` is an ascending rearrangement of its input (`sorted_perm`,
  `sorted_pairwise`). Comparing neighbours is enough to see whether a list
  ascends (`gt_notMem_neighbours_iff`), because the order is transitive.
  `least?_eq_some_iff` and `greatest?_eq_some_iff` say which member the two
  extremes are.
-/

import MacroSpan.Position

namespace MacroSpan.Position

/-- The positions of a list in ascending order. -/
def sorted (ps : List Position) : List Position :=
  ps.mergeSort fun a b => decide (a ≤ b)

/-- How each position compares with the one that follows it, by some key. -/
def neighboursBy {κ : Type} [Ord κ] (key : Position → κ) (ps : List Position) : List Ordering :=
  List.zipWith (fun a b => compare (key a) (key b)) ps ps.tail

/-- How each position compares with the one that follows it. -/
def neighbours (ps : List Position) : List Ordering := neighboursBy id ps

/-- How the buffer of each position compares with the buffer of the next. -/
def fileNeighbours (ps : List Position) : List Ordering := neighboursBy Position.file ps

/-- The earliest position of a list. -/
def least? (ps : List Position) : Option Position := ps.min?

/-- The latest position of a list. -/
def greatest? (ps : List Position) : Option Position := ps.max?

variable {ps : List Position} {p : Position}

/-! ## Sorting -/

theorem sorted_perm (ps : List Position) : (sorted ps).Perm ps :=
  List.mergeSort_perm ps _

/-- The sorted list ascends. -/
theorem sorted_pairwise (ps : List Position) : (sorted ps).Pairwise (· ≤ ·) := by
  have h : (sorted ps).Pairwise fun a b => decide (a ≤ b) = true := by
    refine List.pairwise_mergeSort (fun a b c hab hbc => ?_) (fun a b => ?_) ps
    · exact decide_eq_true (le_trans (of_decide_eq_true hab) (of_decide_eq_true hbc))
    · simpa using le_total a b
  exact h.imp of_decide_eq_true

/-! ## Neighbours -/

theorem length_neighboursBy {κ : Type} [Ord κ] (key : Position → κ) (ps : List Position) :
    (neighboursBy key ps).length = ps.length - 1 := by
  simp [neighboursBy]

theorem neighbours_cons_cons (a b : Position) (ps : List Position) :
    neighbours (a :: b :: ps) = compare a b :: neighbours (b :: ps) := rfl

/-- A list ascends exactly if no position compares greater than the next. -/
theorem gt_notMem_neighbours_iff : .gt ∉ neighbours ps ↔ ps.Pairwise (· ≤ ·) := by
  induction ps with
  | nil => simp [neighbours, neighboursBy]
  | cons a ps ih =>
    cases ps with
    | nil => simp [neighbours, neighboursBy]
    | cons b rest =>
      have hcons : (a :: b :: rest).Pairwise (· ≤ ·) ↔
          (∀ c ∈ b :: rest, a ≤ c) ∧ (b :: rest).Pairwise (· ≤ ·) := List.pairwise_cons
      rw [neighbours_cons_cons, List.mem_cons, not_or, ih, hcons, eq_comm,
        Ordering.ne_gt_iff_isLE, ← le_def]
      refine and_congr_left fun hrest => ?_
      -- What is no later than the next position is no later than all that follow.
      refine ⟨fun hab c hc => ?_, fun hall => hall b (List.mem_cons_self ..)⟩
      rcases List.mem_cons.1 hc with rfl | hc
      · exact hab
      · exact le_trans hab ((List.pairwise_cons.1 hrest).1 c hc)

/-- No neighbours in a sorted list are the wrong way round. -/
theorem gt_notMem_neighbours_sorted (ps : List Position) : .gt ∉ neighbours (sorted ps) :=
  gt_notMem_neighbours_iff.2 (sorted_pairwise ps)

/-! ## Extremes -/

/-- The earliest position is the member that no other member comes before. -/
theorem least?_eq_some_iff : least? ps = some p ↔ p ∈ ps ∧ ∀ q ∈ ps, p ≤ q :=
  List.min?_eq_some_iff

/-- The latest position is the member that no other member comes after. -/
theorem greatest?_eq_some_iff : greatest? ps = some p ↔ p ∈ ps ∧ ∀ q ∈ ps, q ≤ p :=
  List.max?_eq_some_iff

end MacroSpan.Position
