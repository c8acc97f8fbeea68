/-
  MacroSpan.Proofs.Budget

  How many looks resolution needs. `resolve` allows `size + 1` of them. A larger
  number finds nothing more (`resolveWithin_eq_resolve`), and a smaller one would not
  do for every table of that size.

  A position takes exactly one look more than there are entries on the way to it
  (`Trail.resolveWithin_eq_ite`). The entries on the way are all different, so there
  are at most `size` of them, and there may be as many as that: in `ladder p n` every
  entry leads to the one registered before it and the first one to `p`, so the way
  from the last entry passes through the whole table (`trail_ladder`).
-/

import MacroSpan.Proofs.Resolution

namespace MacroSpan.ExpansionTable

variable {t : ExpansionTable} {c : Coordinate} {l m : Location} {p : Position} {is : List Nat}
  {n : Nat}

/-! ## Too few looks -/

/-- As long as the looks are spent on entries, nothing is found. -/
theorem Trail.resolveWithin_eq_none (h : t.Trail c l is m) (hn : n ≤ is.length) :
    t.resolveWithin c n l = none := by
  induction h generalizing n with
  | nil =>
    rw [List.length_nil, Nat.le_zero] at hn
    rw [hn, resolveWithin_zero]
  | cons hop _ ih =>
    rw [List.length_cons] at hn
    cases n with
    | zero => exact resolveWithin_zero ..
    | succ n =>
      rw [resolveWithin_expanded, hop, Option.bind_some]
      exact ih (by omega)

/-- Exactly the entries on the way to a position and the position itself have to be
    looked at to find it. -/
theorem Trail.resolveWithin_eq_ite (h : t.Trail c l is (.file p)) (n : Nat) :
    t.resolveWithin c n l = if is.length < n then some p else none := by
  by_cases hn : is.length < n
  · rw [if_pos hn]
    exact h.resolveWithin rfl hn
  · rw [if_neg hn]
    exact h.resolveWithin_eq_none (by omega)

/-! ## Ladders -/

/-- Where a ladder of `n` entries is climbed down from: its last entry, and the foot
    `p` itself if it has none. -/
def rung (p : Position) : Nat → Location
  | 0 => .file p
  | n + 1 => .expanded n

/-- The table of `n` entries in which each entry leads, in both coordinates, to the
    one registered before it and the first entry to `p`. -/
def ladder (p : Position) : Nat → ExpansionTable
  | 0 => empty
  | n + 1 => (ladder p n).push ⟨rung p n, rung p n⟩

@[simp] theorem size_ladder (p : Position) (n : Nat) : (ladder p n).size = n := by
  induction n with
  | zero => rfl
  | succ n ih => rw [ladder, size_push, ih]

/-- The last entry of a ladder leads, either way, to where the shorter one starts. -/
theorem hop?_ladder_last (p : Position) (n : Nat) (c : Coordinate) :
    (ladder p (n + 1)).hop? c n = some (rung p n) := by
  have hlast := hop?_push_size (ladder p n) c ⟨rung p n, rung p n⟩
  rw [size_ladder] at hlast
  rw [ladder, hlast]
  cases c with
  | spelling => rfl
  | expansion => rfl

/-- Climbing down a ladder passes through all of its entries. -/
theorem trail_ladder (p : Position) (n : Nat) (c : Coordinate) :
    (ladder p n).Trail c (rung p n) (List.range n).reverse (.file p) := by
  induction n with
  | zero => exact .nil _
  | succ n ih =>
    -- The last entry leads to where the shorter ladder, which is still there, is climbed.
    have hshorter := ih.growsTo (growsTo_push (ladder p n) ⟨rung p n, rung p n⟩)
    rw [List.range_succ, List.reverse_append, List.reverse_singleton, List.singleton_append]
    exact .cons (hop?_ladder_last p n c) hshorter

/-! ## The number of looks allowed -/

/-- The number of looks that resolution allows is exactly right. Whatever the table, the
    coordinate and the location, a larger number gives the same answer. A location that
    resolves does so by way of registered entries that are all different, hence of at most
    `size` of them, and the numbers of looks that find its position are those above the
    number of these entries. And for every `n` there is a table of `n` entries with a
    location that resolves, in either coordinate, with `n + 1` looks but not with `n`. -/
theorem allowed_looks_necessary_and_sufficient :
    (∀ (t : ExpansionTable) (c : Coordinate) (l : Location),
      (∀ n, t.size + 1 ≤ n → t.resolveWithin c n l = t.resolve c l) ∧
      (∀ p, t.resolve c l = some p →
        ∃ is, t.Trail c l is (.file p) ∧
          (is.Nodup ∧ (∀ i ∈ is, i < t.size) ∧ is.length ≤ t.size) ∧
          ∀ n, t.resolveWithin c n l = if is.length < n then some p else none)) ∧
    (∀ n, ∃ (t : ExpansionTable) (l : Location), t.size = n ∧
      ∀ c, (∃ p, t.resolveWithin c (n + 1) l = some p) ∧ t.resolveWithin c n l = none) := by
  refine ⟨?_, ?_⟩
  · intro t c l
    refine ⟨fun n hn => resolveWithin_eq_resolve hn, ?_⟩
    intro p hp
    obtain ⟨is, htrail⟩ := (resolve_eq_some_iff.1 hp).exists_trail
    have hnd : is.Nodup := htrail.nodup (isEnd_file t p)
    refine ⟨is, htrail, ⟨hnd, ?_, htrail.length_le_size hnd⟩, htrail.resolveWithin_eq_ite⟩
    intro i hi
    exact htrail.lt_size hi
  · intro n
    -- Any position does for the foot of the ladder.
    refine ⟨ladder default n, rung default n, size_ladder _ n, ?_⟩
    intro c
    have hlooks := (trail_ladder default n c).resolveWithin_eq_ite
    rw [List.length_reverse, List.length_range] at hlooks
    refine ⟨⟨default, ?_⟩, ?_⟩
    · rw [hlooks, if_pos (Nat.lt_succ_self n)]
    · rw [hlooks, if_neg (Nat.lt_irrefl n)]

/-- In this table the spelling chain from entry 0 passes through every entry, and the
    expansion chain from there is a circle, on which fifty looks find no more than the
    four that are allowed. -/
theorem four_looks_through_three_entries :
    let t := ofList [⟨.expanded 2, .expanded 1⟩, ⟨.file ⟨⟨1⟩, 9⟩, .expanded 0⟩,
      ⟨.expanded 1, .invalid⟩]
    (t.resolve .spelling (.expanded 0) = some ⟨⟨1⟩, 9⟩ ∧
      ∃ is, t.Trail .spelling (.expanded 0) is (.file ⟨⟨1⟩, 9⟩) ∧ is.Nodup ∧
        is.length ≤ t.size) ∧
    (t.size + 1 ≤ 50 ∧
      t.resolveWithin .expansion 50 (.expanded 0) = t.resolve .expansion (.expanded 0)) := by
  intro t
  have hspelling : t.resolve .spelling (.expanded 0) = some ⟨⟨1⟩, 9⟩ := rfl
  have hsize : t.size + 1 ≤ 50 := by decide
  refine ⟨⟨hspelling, ?_⟩, hsize, ?_⟩
  · obtain ⟨is, htrail, ⟨hnd, -, hle⟩, -⟩ :=
      (allowed_looks_necessary_and_sufficient.1 t .spelling (.expanded 0)).2 _ hspelling
    exact ⟨is, htrail, hnd, hle⟩
  · exact (allowed_looks_necessary_and_sufficient.1 t .expansion (.expanded 0)).1 50 hsize

end MacroSpan.ExpansionTable
