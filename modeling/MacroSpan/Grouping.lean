/-
  MacroSpan.Grouping

  Equal items of a list: the class of an item is the place of the first item
  that is equal to it. So a class stands for the item found at its own place
  (`getElem?_of_mem_classes`), two items share a class exactly when they are equal
  (`getElem?_classes_eq_iff`), and there are as many classes as different items
  (`distinct_classes`).
-/

namespace MacroSpan.Grouping

variable {α β : Type} [DecidableEq α] [DecidableEq β] {items : List α} {i j k : Nat}

/-- For each item, the place of the first item equal to it. -/
def classes (items : List α) : List Nat := items.map fun a => items.idxOf a

/-- Number of different items. -/
def distinct (items : List α) : Nat := items.eraseDups.length

/-! ## Classes -/

@[simp] theorem length_classes (items : List α) : (classes items).length = items.length := by
  simp [classes]

theorem getElem?_classes (items : List α) (i : Nat) :
    (classes items)[i]? = items[i]?.map fun a => items.idxOf a := by
  rw [classes, List.getElem?_map]

/-- The place that stands for an item holds an equal item. -/
theorem getElem?_of_mem_classes (h : (classes items)[i]? = some k) : items[k]? = items[i]? := by
  rw [getElem?_classes, Option.map_eq_some_iff] at h
  obtain ⟨a, ha, rfl⟩ := h
  have hlt : items.idxOf a < items.length := List.idxOf_lt_length_iff.2 (List.mem_of_getElem? ha)
  rw [ha, List.getElem?_eq_getElem hlt, List.getElem_idxOf]

/-- Two places have the same class exactly if they hold equal items. -/
theorem getElem?_classes_eq_iff :
    (classes items)[i]? = (classes items)[j]? ↔ items[i]? = items[j]? := by
  refine ⟨fun h => ?_, fun h => by rw [getElem?_classes, getElem?_classes, h]⟩
  cases hk : (classes items)[i]? with
  | some k =>
    -- The common class stands for both items.
    have hj : (classes items)[j]? = some k := h ▸ hk
    rw [← getElem?_of_mem_classes hk, getElem?_of_mem_classes hj]
  | none =>
    -- Both places lie behind the end of the list.
    have hj : (classes items)[j]? = none := h ▸ hk
    rw [getElem?_classes, Option.map_eq_none_iff] at hk hj
    rw [hk, hj]

/-! ## Counting -/

theorem distinct_cons (a : α) (items : List α) :
    distinct (a :: items) = distinct (items.filter fun b => !b == a) + 1 := by
  rw [distinct, List.eraseDups_cons, List.length_cons, distinct]

/-- A map that keeps different items different keeps their number. -/
theorem distinct_map (f : α → β) (items : List α)
    (h : ∀ a ∈ items, ∀ b ∈ items, f a = f b → a = b) :
    distinct (items.map f) = distinct items := by
  match items, h with
  | [], _ => rfl
  | a :: rest, h =>
    have hsame : ∀ b ∈ rest, (f b == f a) = (b == a) := by
      intro b hb
      rw [Bool.eq_iff_iff, beq_iff_eq, beq_iff_eq]
      exact ⟨h b (List.mem_cons_of_mem _ hb) a (List.mem_cons_self ..), congrArg f⟩
    have hfilter : rest.filter ((fun b => !b == f a) ∘ f) = rest.filter fun b => !b == a :=
      List.filter_congr fun b hb => congrArg not (hsame b hb)
    rw [List.map_cons, distinct_cons, distinct_cons, List.filter_map, hfilter]
    refine congrArg (· + 1) (distinct_map f _ fun b hb c hc => ?_)
    exact h b (List.mem_cons_of_mem _ (List.mem_filter.1 hb).1) c
      (List.mem_cons_of_mem _ (List.mem_filter.1 hc).1)
-- What is counted after the first item is a part of the rest.
termination_by items.length
decreasing_by exact Nat.lt_succ_of_le (List.length_filter_le ..)

/-- There are as many classes as there are different items. -/
theorem distinct_classes (items : List α) : distinct (classes items) = distinct items := by
  apply distinct_map
  intro a ha b hb hab
  obtain ⟨i, hi⟩ := List.getElem?_of_mem ha
  obtain ⟨j, hj⟩ := List.getElem?_of_mem hb
  have heq : (classes items)[i]? = (classes items)[j]? := by
    rw [getElem?_classes, getElem?_classes, hi, hj, Option.map_some, Option.map_some, hab]
  rw [getElem?_classes_eq_iff, hi, hj] at heq
  exact Option.some.inj heq

end MacroSpan.Grouping
