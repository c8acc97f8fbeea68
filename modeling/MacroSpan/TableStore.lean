/-
  MacroSpan.TableStore

  Several expansion tables side by side, numbered in the order in which they
  were made. Tables are made empty or as copies of a table that exists, and they
  grow by registration. No table is ever removed or renumbered, and a copy
  shares nothing with the table that it was made from.

  `apply` is given by its effect on the number of tables (`size_apply_create` and
  its like) and on each table (`table?_apply_create` and its like); no proof about
  runs looks further into it.
-/

import MacroSpan.ExpansionTable

namespace MacroSpan

/-- Tables numbered from zero. -/
structure TableStore where
  tables : Array ExpansionTable
deriving DecidableEq, Inhabited, Repr

/-- One change to a store. -/
inductive Edit where
  /-- Makes an empty table. -/
  | create
  /-- Makes a copy of a table. -/
  | duplicate (source : Nat)
  /-- Registers an entry in a table. -/
  | register (target : Nat) (entry : Entry)
deriving DecidableEq, Inhabited, Repr

namespace TableStore

/-- Number of tables. -/
def size (s : TableStore) : Nat := s.tables.size

/-- The table with the given number. -/
def table? (s : TableStore) (i : Nat) : Option ExpansionTable := s.tables[i]?

/-- The table with a number that is known to exist. -/
def table (s : TableStore) (i : Nat) (h : i < s.size) : ExpansionTable :=
  s.tables[(⟨i, h⟩ : Fin s.tables.size)]

/-- The sizes of all tables. -/
def sizes (s : TableStore) : List Nat := s.tables.toList.map ExpansionTable.size

/-- Carries out one change. A change that names a table that does not exist has
    no effect. -/
def apply (s : TableStore) : Edit → TableStore
  | .create => ⟨s.tables.push .empty⟩
  | .duplicate i =>
    match s.table? i with
    | some t => ⟨s.tables.push t⟩
    | none => s
  | .register i e => ⟨s.tables.modify i (·.push e)⟩

/-- Carries out changes one after the other. -/
def run (s : TableStore) (edits : List Edit) : TableStore := edits.foldl apply s

variable {s : TableStore} {i j : Nat} {t : ExpansionTable}

/-! ## Tables by number -/

/-- Exactly the numbers below the size belong to tables. -/
theorem table?_eq_some (h : i < s.size) : s.table? i = some (s.table i h) :=
  Array.getElem?_eq_getElem h

theorem lt_size_of_table? (h : s.table? i = some t) : i < s.size :=
  (Array.getElem?_eq_some_iff.1 h).1

/-! ## Number of tables -/

@[simp] theorem size_apply_create (s : TableStore) : (s.apply .create).size = s.size + 1 :=
  Array.size_push _

/-- Registration makes no table, wherever it goes. -/
@[simp] theorem size_apply_register (s : TableStore) (i : Nat) (e : Entry) :
    (s.apply (.register i e)).size = s.size :=
  Array.size_modify

theorem size_apply_duplicate (h : i < s.size) : (s.apply (.duplicate i)).size = s.size + 1 := by
  simp [apply, table?_eq_some h, size]

/-! ## Tables after a change -/

/-- The new table is empty and takes the next number; all others stay. -/
theorem table?_apply_create (s : TableStore) (j : Nat) :
    (s.apply .create).table? j = if j = s.size then some .empty else s.table? j :=
  Array.getElem?_push

/-- The copy takes the next number and holds what its source holds; all others stay. -/
theorem table?_apply_duplicate (h : i < s.size) (j : Nat) :
    (s.apply (.duplicate i)).table? j = if j = s.size then s.table? i else s.table? j := by
  simp only [apply, table?_eq_some h]
  exact Array.getElem?_push

/-- There is nothing to copy from a number without a table. -/
theorem apply_duplicate_of_none (h : s.table? i = none) : s.apply (.duplicate i) = s := by
  simp only [apply, h]

/-- Registration reaches the table it names and no other. -/
theorem table?_apply_register (s : TableStore) (i j : Nat) (e : Entry) :
    (s.apply (.register i e)).table? j =
      if i = j then (s.table? j).map (·.push e) else s.table? j :=
  Array.getElem?_modify

theorem table?_apply_register_of_ne (h : j ≠ i) (e : Entry) :
    (s.apply (.register i e)).table? j = s.table? j := by
  rw [table?_apply_register, if_neg (Ne.symm h)]

/-! ## Runs of changes -/

@[simp] theorem run_nil (s : TableStore) : s.run [] = s := rfl

@[simp] theorem run_cons (s : TableStore) (e : Edit) (es : List Edit) :
    s.run (e :: es) = (s.apply e).run es := rfl

/-- A run can be interrupted anywhere and taken up again. -/
theorem run_append (s : TableStore) (es fs : List Edit) : s.run (es ++ fs) = (s.run es).run fs :=
  List.foldl_append

end TableStore

end MacroSpan
