/-
  MacroSpan.Proofs.Locality

  What an answer depends on in the table. Resolution is given more looks by a larger
  table, so at first sight every entry takes part in every answer. In fact only the
  entries that the chain comes to do, and of these only the coordinate that is
  followed.

  `AgreesFrom t u c l` says that the two tables hold the same for every number that
  the chain from `l` visits in `t`, where "the same" includes holding nothing. Then
  the unbounded chains from `l` are the same in both tables, however much the tables
  differ elsewhere and in size, and with the chains the answers and the verdicts.
-/

import MacroSpan.Proofs.Resolution
import MacroSpan.Proofs.Verdict

namespace MacroSpan

namespace ExpansionTable

/-- Every number that the chain from `l` visits in `t` is registered in both tables
    with the same location for the coordinate, or in neither of them. -/
def AgreesFrom (t u : ExpansionTable) (c : Coordinate) (l : Location) : Prop :=
  ∀ i, t.Reaches c l (.expanded i) → t.hop? c i = u.hop? c i

variable {t u : ExpansionTable} {c : Coordinate} {i : Nat} {l m : Location}

/-! ## Agreement along a chain -/

theorem AgreesFrom.hop?_eq (h : t.AgreesFrom u c (.expanded i)) : t.hop? c i = u.hop? c i :=
  h i (.refl _)

theorem AgreesFrom.hop (h : t.AgreesFrom u c (.expanded i)) (hop : t.hop? c i = some l) :
    t.AgreesFrom u c l := by
  intro j hj
  exact h j (.hop hop hj)

theorem agreesFrom_file (t u : ExpansionTable) (c : Coordinate) (p : Position) :
    t.AgreesFrom u c (.file p) := by
  intro i hi
  cases hi.eq_of_isEnd (isEnd_file t p)

/-- Where both tables have nothing the chain ends in both. -/
theorem agreesFrom_of_missing (ht : t.size ≤ i) (hu : u.size ≤ i) :
    t.AgreesFrom u c (.expanded i) := by
  intro j hj
  have hend : t.IsEnd (.expanded i) := ht
  have hji : j = i := Location.expanded.inj (hj.eq_of_isEnd hend)
  rw [hji, hop?_eq_none_iff.2 ht, hop?_eq_none_iff.2 hu]

/-- One equal hop is put in front of a chain along which the tables agree. -/
theorem agreesFrom_of_hop (ht : t.hop? c i = some l) (hu : u.hop? c i = some l)
    (hl : t.AgreesFrom u c l) : t.AgreesFrom u c (.expanded i) := by
  intro j hj
  rcases (reaches_iff_of_hop ht).1 hj with heq | hj'
  · have hji : j = i := Location.expanded.inj heq
    rw [hji, ht, hu]
  · exact hl j hj'

/-! ## Chains and answers -/

/-- The other table has no chain of its own: each of its hops starts at a number that
    the first table visits as well, and there the two agree. -/
theorem AgreesFrom.reaches (h : t.AgreesFrom u c l) (hm : u.Reaches c l m) :
    t.Reaches c l m := by
  induction hm with
  | refl => exact .refl _
  | hop hop _ ih =>
    have hop' := h.hop?_eq
    rw [hop] at hop'
    exact .hop hop' (ih (h.hop hop'))

/-- So it does not matter in which of the two tables the visited numbers are read off. -/
theorem AgreesFrom.symm (h : t.AgreesFrom u c l) : u.AgreesFrom t c l := by
  intro i hi
  exact (h i (h.reaches hi)).symm

theorem AgreesFrom.reaches_iff (h : t.AgreesFrom u c l) :
    t.Reaches c l m ↔ u.Reaches c l m :=
  ⟨h.symm.reaches, h.reaches⟩

theorem AgreesFrom.resolve_eq (h : t.AgreesFrom u c l) : t.resolve c l = u.resolve c l := by
  apply Option.ext
  intro p
  -- Looks are not compared at all; the sizes of the tables have dropped out.
  rw [resolve_eq_some_iff, resolve_eq_some_iff, h.reaches_iff]

end ExpansionTable

open ExpansionTable

/-- Answers are local, and the two coordinates do not meet. Two tables that agree, in
    one coordinate, on all numbers that the chain from a location visits in the first
    of them resolve the location alike in that coordinate. Verdicts follow spellings
    alone: they are the same on both tables if the tables agree in spelling from the
    ends of the node and from the tokens that the question consults. The expansions,
    the entries that are not visited and the sizes of the tables are free. -/
theorem answers_depend_on_visited_entries (t u : ExpansionTable) :
    (∀ c l, t.AgreesFrom u c l → t.resolve c l = u.resolve c l) ∧
    (∀ x n, (∀ l ∈ alignsConsults x n, t.AgreesFrom u .spelling l) →
      aligns t.spelling x n = aligns u.spelling x n) ∧
    (∀ ts n, (∀ l ∈ spelledFromConsults ts n, t.AgreesFrom u .spelling l) →
      spelledFrom t.spelling ts n = spelledFrom u.spelling ts n) := by
  refine ⟨?_, ?_, ?_⟩
  · intro c l h
    exact h.resolve_eq
  · intro x n h
    apply aligns_congr
    intro l hl
    exact (h l hl).resolve_eq
  · intro ts n h
    apply spelledFrom_congr
    intro l hl
    exact (h l hl).resolve_eq

/-- The chains consulted here pass through entries 0 and 2 or end at the missing entry
    9. Entry 1 is a circle in one table and a position in the other, which is longer
    and holds other expansions throughout. -/
theorem verdict_ignores_unvisited_entries :
    let t := ofList [⟨.expanded 2, .expanded 7⟩, ⟨.expanded 1, .invalid⟩,
      ⟨.file ⟨⟨3⟩, 8⟩, .invalid⟩]
    let u := ofList [⟨.expanded 2, .invalid⟩, ⟨.file ⟨⟨3⟩, 8⟩, .invalid⟩,
      ⟨.file ⟨⟨3⟩, 8⟩, .expanded 0⟩, ⟨.expanded 0, .expanded 0⟩]
    let x : Expansion := ⟨"F", [⟨.expanded 0⟩], [⟨"a", [⟨.expanded 9⟩]⟩], by decide⟩
    let n : Node := ⟨.declaration, ⟨.expanded 2, .expanded 0⟩⟩
    (∀ l ∈ alignsConsults x n, t.AgreesFrom u .spelling l) ∧
    t.resolve .spelling (.expanded 9) = u.resolve .spelling (.expanded 9) ∧
    aligns t.spelling x n = aligns u.spelling x n ∧ aligns t.spelling x n = true := by
  intro t u x n
  obtain ⟨hresolve, haligns, -⟩ := answers_depend_on_visited_entries t u
  have htwo : t.AgreesFrom u .spelling (.expanded 2) :=
    agreesFrom_of_hop rfl rfl (agreesFrom_file t u _ _)
  have hzero : t.AgreesFrom u .spelling (.expanded 0) := agreesFrom_of_hop rfl rfl htwo
  have hnine : t.AgreesFrom u .spelling (.expanded 9) :=
    agreesFrom_of_missing (by decide) (by decide)
  have hagree : ∀ l ∈ alignsConsults x n, t.AgreesFrom u .spelling l := by
    intro l hl
    have hcases : l = .expanded 2 ∨ l = .expanded 0 ∨ l = .expanded 9 := by
      revert l
      decide
    rcases hcases with rfl | rfl | rfl
    · exact htwo
    · exact hzero
    · exact hnine
  exact ⟨hagree, hresolve _ _ hnine, haligns x n hagree, by decide⟩

end MacroSpan
