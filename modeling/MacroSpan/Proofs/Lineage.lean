/-
  MacroSpan.Proofs.Lineage

  Runs over several tables. Numbers of entries are shared between tables, and
  tables are copied and grow apart, yet no answer that was once given is lost:
  one edit grows the table it names and leaves all others alone, so along a run
  every table only grows, and a copy starts from what its source held when it was
  made.

  `TableStore.Descends` says which tables go back to a given one. What the given
  table answers now, all of its descendants answer at every later moment.
-/

import MacroSpan.TableStore
import MacroSpan.Proofs.Resolution

namespace MacroSpan.TableStore

open ExpansionTable

/-- `s.Descends i es j`: after the edits `es` on `s`, table `j` is table `i` or was
    copied from it since, directly or by way of other copies. -/
inductive Descends (s : TableStore) (i : Nat) : List Edit → Nat → Prop where
  /-- A table is its own descendant at every later moment. -/
  | self (es : List Edit) : Descends s i es i
  /-- A copy of a descendant is a descendant from then on. -/
  | copy {es : List Edit} {j : Nat} (h : Descends s i es j) (fs : List Edit) :
      Descends s i (es ++ .duplicate j :: fs) (s.run es).size

variable {s : TableStore} {i j : Nat} {t : ExpansionTable}

/-! ## One edit -/

/-- No edit takes anything away from a table. -/
theorem exists_growsTo_apply (h : s.table? j = some t) (e : Edit) :
    ∃ u, (s.apply e).table? j = some u ∧ t.GrowsTo u := by
  -- A new table is numbered `s.size`, so it does not take the place of table `j`.
  have hj : j ≠ s.size := Nat.ne_of_lt (lt_size_of_table? h)
  cases e with
  | create => exact ⟨t, by rw [table?_apply_create, if_neg hj, h], .refl t⟩
  | duplicate k =>
    cases hk : s.table? k with
    | none => exact ⟨t, by rw [apply_duplicate_of_none hk, h], .refl t⟩
    | some v =>
      have hlt : k < s.size := lt_size_of_table? hk
      exact ⟨t, by rw [table?_apply_duplicate hlt, if_neg hj, h], .refl t⟩
  | register k e =>
    by_cases hkj : j = k
    · subst hkj
      refine ⟨t.push e, ?_, growsTo_push t e⟩
      rw [table?_apply_register, if_pos rfl, h, Option.map_some]
    · exact ⟨t, by rw [table?_apply_register_of_ne hkj, h], .refl t⟩

theorem table?_apply_duplicate_size (h : s.table? j = some t) :
    (s.apply (.duplicate j)).table? s.size = some t := by
  rw [table?_apply_duplicate (lt_size_of_table? h), if_pos rfl, h]

/-! ## Whole runs -/

/-- Along a run of edits every table only grows. -/
theorem exists_growsTo_run (h : s.table? j = some t) (es : List Edit) :
    ∃ u, (s.run es).table? j = some u ∧ t.GrowsTo u := by
  induction es generalizing s t with
  | nil => exact ⟨t, h, .refl t⟩
  | cons e es ih =>
    obtain ⟨u, hu, htu⟩ := exists_growsTo_apply h e
    obtain ⟨v, hv, huv⟩ := ih hu
    exact ⟨v, by rw [run_cons, hv], htu.trans huv⟩

/-- A descendant holds all that the table held, however many copies lie between. -/
theorem Descends.exists_growsTo {es : List Edit} (hj : s.Descends i es j)
    (h : s.table? i = some t) : ∃ u, (s.run es).table? j = some u ∧ t.GrowsTo u := by
  induction hj with
  | self es => exact exists_growsTo_run h es
  | @copy es j _ fs ih =>
    -- The source has grown to `u` by the time of the copy, and the copy grows on from there.
    obtain ⟨u, hu, htu⟩ := ih
    obtain ⟨v, hv, huv⟩ := exists_growsTo_run (table?_apply_duplicate_size hu) fs
    refine ⟨v, ?_, htu.trans huv⟩
    rw [run_append, run_cons, hv]

/-- Answers are permanent. Whatever table `i` of a store resolves, in either
    coordinate, table `i` and every table copied from it since resolve to the same
    position after any further edits of any tables. And registration in one table
    leaves every other table, hence its size and all of its answers, as it was. -/
theorem answers_permanent_along_runs (s : TableStore) :
    (∀ i t c l p, s.table? i = some t → t.resolve c l = some p →
      ∀ es j, s.Descends i es j →
        ∃ u, (s.run es).table? j = some u ∧ u.resolve c l = some p) ∧
    (∀ i e j, j ≠ i → (s.apply (.register i e)).table? j = s.table? j) := by
  constructor
  · intro i t c l p hi hp es j hj
    obtain ⟨u, hu, htu⟩ := hj.exists_growsTo hi
    exact ⟨u, hu, htu.resolve_eq_some hp⟩
  · intro i e j hne
    exact table?_apply_register_of_ne hne e

/-- Table 2 is a copy of table 1, which is a copy of table 0. It still spells entry 0
    where table 0 did, whatever the three tables have registered since. -/
theorem copy_of_copy_keeps_answer :
    ∃ u, ((TableStore.mk #[.ofList [⟨.file ⟨⟨1⟩, 4⟩, .invalid⟩]]).run
        [.duplicate 0, .register 0 ⟨.invalid, .expanded 0⟩, .duplicate 1,
          .register 1 ⟨.expanded 9, .invalid⟩, .register 2 ⟨.expanded 1, .invalid⟩]).table? 2 =
        some u ∧ u.resolve .spelling (.expanded 0) = some ⟨⟨1⟩, 4⟩ := by
  refine (answers_permanent_along_runs _).1 0 _ .spelling (.expanded 0) _ rfl rfl _ _ ?_
  have hone : Descends (.mk #[.ofList [⟨.file ⟨⟨1⟩, 4⟩, .invalid⟩]]) 0
      [.duplicate 0, .register 0 ⟨.invalid, .expanded 0⟩] 1 := .copy (.self []) _
  exact .copy hone _

end MacroSpan.TableStore
