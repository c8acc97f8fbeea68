/-
  MacroSpan.Proofs.Script

  Scripts as runs of edits. A workspace takes a script line by line, and what its
  lines do to the tables is a run of a `TableStore`: `edits` says which changes a
  command makes, `store_step` that a line makes exactly these, and `store_after`
  that a script makes them one after the other.

  `Moves` says once what a command can do to a workspace; everything about the state
  after a script is derived from it. Refused lines make no move at all, so a script
  may be read without them (`answers_accepted`). And since tables only grow along a
  run, whatever the current table resolves is still resolved when the script has come
  back to it, or to a copy (`resolve_table_after`), and the nodes that were accepted
  stay accepted.
-/

import MacroSpan.Workspace
import MacroSpan.Proofs.Lineage
import MacroSpan.Proofs.Verdict

namespace MacroSpan

/-- Whether a command only asks. -/
def Command.isQuestion : Command → Bool
  | .inspect _ | .overview | .probe .. | .align _ | .spell .. => true
  | .create | .duplicate | .switch _ | .register _ | .record .. => false

/-- Whether a command leaves the current table in place or goes to a copy of it. -/
def Command.stays : Command → Bool
  | .create | .switch _ => false
  | .duplicate | .register _ | .record .. => true
  | .inspect _ | .overview | .probe .. | .align _ | .spell .. => true

namespace Workspace

open ExpansionTable

/-- The workspace that a script leaves behind. -/
def after (w : Workspace) (script : List (Option Command)) : Workspace :=
  script.foldl (fun v line => (v.step line).2) w

/-- The changes that a command makes to the tables. -/
def edits (w : Workspace) : Command → List Edit
  | .create => [.create]
  | .duplicate => [.duplicate w.current]
  | .register e => [.register w.current e]
  | .switch _ | .inspect _ | .overview | .probe .. | .record .. | .align _ | .spell .. => []

/-- The changes that a script makes to the tables, in order. -/
def scriptEdits : Workspace → List (Option Command) → List Edit
  | _, [] => []
  | w, line :: script => line.elim [] w.edits ++ (w.step line).2.scriptEdits script

/-- The lines of a script that are not answered with a fault. -/
def accepted : Workspace → List (Option Command) → List (Option Command)
  | _, [] => []
  | w, line :: script =>
    match w.step line with
    | (.ok _, v) => line :: v.accepted script
    | (.error _, v) => v.accepted script

/-- The script ends at the table that it started from, or it never goes to another table
    than a copy of the one before. -/
def Returns (w : Workspace) (script : List (Option Command)) : Prop :=
  (w.after script).current = w.current ∨
    ∀ command, some command ∈ script → command.stays = true

/-- What a command that is not refused can make of a workspace. -/
inductive Moves (w : Workspace) : Command → Workspace → Prop where
  | create : Moves w .create w.create
  | duplicate : Moves w .duplicate w.duplicate
  | switch {number : Nat} (h : number < w.store.size) :
      Moves w (.switch number) { w with current := number, current_lt := h }
  | register (e : Entry) : Moves w (.register e) (w.register e)
  | record {name : String} {definition : List Token} {arguments : List Argument} {x : Expansion}
      (h : Expansion.record name definition arguments = .ok x) :
      Moves w (.record name definition arguments) { w with recorded := some x }
  | question {command : Command} (h : command.isQuestion = true) : Moves w command w

variable {w v : Workspace} {command : Command} {answer : Answer} {fault : Fault}
  {line : Option Command} {script : List (Option Command)}

/-! ## One command -/

/-- A computation that gives a result gives it from the result of its first part. -/
theorem exists_ok_of_bind {α β : Type} {a : Except Fault α} {f : α → Except Fault β} {b : β}
    (h : a >>= f = .ok b) : ∃ x, a = .ok x ∧ f x = .ok b := by
  cases a with
  | error e => cases h
  | ok x => exact ⟨x, rfl, h⟩

/-- A command that is answered makes one of the moves. -/
theorem moves_of_perform (h : w.perform command = .ok (answer, v)) : w.Moves command v := by
  cases command with
  | create => cases h; exact .create
  | duplicate => cases h; exact .duplicate
  | switch number =>
    obtain ⟨u, hu, hv⟩ := exists_ok_of_bind h
    unfold switch at hu
    split at hu
    · cases hu
      cases hv
      exact .switch _
    · cases hu
  | register e => cases h; exact .register e
  | inspect ls => cases h; exact .question rfl
  | overview => cases h; exact .question rfl
  | probe extent ps => cases h; exact .question rfl
  | record name definition arguments =>
    simp only [perform] at h
    split at h
    · next x hx =>
      cases h
      exact .record hx
    · cases h
  | align nodes =>
    obtain ⟨x, -, hv⟩ := exists_ok_of_bind h
    cases hv
    exact .question rfl
  | spell source nodes =>
    obtain ⟨ts, -, hv⟩ := exists_ok_of_bind h
    cases hv
    exact .question rfl

/-- A command makes the changes that are foreseen for it, and no others. -/
theorem Moves.store_eq (h : w.Moves command v) : v.store = w.store.run (w.edits command) := by
  cases h with
  | create => rfl
  | duplicate => rfl
  | switch _ => rfl
  | register e => rfl
  | record _ => rfl
  | question h =>
    cases command with
    | inspect _ | overview | probe _ _ | align _ | spell _ _ => rfl
    | create | duplicate | switch _ | register _ | record _ _ _ => cases h

/-- No command that could make a change is ever refused. -/
theorem edits_eq_nil_of_perform_eq_error (h : w.perform command = .error fault) :
    w.edits command = [] := by
  cases command with
  | create | duplicate | register _ => cases h
  | switch _ | inspect _ | overview | probe _ _ | record _ _ _ | align _ | spell _ _ => rfl

/-! ## One line -/

/-- A line either holds a command that is answered and makes its move, or it is answered
    with a fault and nothing happens. -/
theorem step_cases (w : Workspace) (line : Option Command) :
    (∃ command answer, line = some command ∧ (w.step line).1 = .ok answer ∧
      w.Moves command (w.step line).2) ∨
    (∃ fault, (w.step line).1 = .error fault ∧ (w.step line).2 = w ∧
      line.elim [] w.edits = []) := by
  cases line with
  | none => exact .inr ⟨.unreadable, rfl, rfl, rfl⟩
  | some command =>
    cases hperform : w.perform command with
    | ok result =>
      obtain ⟨answer, v⟩ := result
      have hstep : w.step (some command) = (.ok answer, v) := by simp only [step, hperform]
      rw [hstep]
      exact .inl ⟨command, answer, rfl, rfl, moves_of_perform hperform⟩
    | error fault =>
      have hstep : w.step (some command) = (.error fault, w) := by simp only [step, hperform]
      rw [hstep]
      exact .inr ⟨fault, rfl, rfl, edits_eq_nil_of_perform_eq_error hperform⟩

/-- A line that is answered with a fault leaves the workspace as it was. -/
theorem step_eq_of_error (h : (w.step line).1 = .error fault) : (w.step line).2 = w := by
  rcases w.step_cases line with ⟨-, answer, -, hok, -⟩ | ⟨-, -, hsame, -⟩
  · rw [h] at hok
    cases hok
  · exact hsame

/-- A line changes the tables by the edits of its command, if it has one. -/
theorem store_step (w : Workspace) (line : Option Command) :
    (w.step line).2.store = w.store.run (line.elim [] w.edits) := by
  rcases w.step_cases line with ⟨command, -, rfl, -, hmove⟩ | ⟨-, -, hsame, hnone⟩
  · exact hmove.store_eq
  · rw [hsame, hnone, TableStore.run_nil]

/-! ## Whole scripts -/

@[simp] theorem after_nil (w : Workspace) : w.after [] = w := rfl

@[simp] theorem after_cons (w : Workspace) (line : Option Command)
    (script : List (Option Command)) :
    w.after (line :: script) = (w.step line).2.after script := rfl

@[simp] theorem answers_cons (w : Workspace) (line : Option Command)
    (script : List (Option Command)) :
    w.answers (line :: script) = (w.step line).1 :: (w.step line).2.answers script := rfl

@[simp] theorem length_answers (w : Workspace) (script : List (Option Command)) :
    (w.answers script).length = script.length := by
  induction script generalizing w with
  | nil => rfl
  | cons line script ih => rw [answers_cons, List.length_cons, ih, List.length_cons]

/-- A script may be interrupted: the rest of it is answered by the workspace that the
    first part leaves behind. -/
theorem answers_append (w : Workspace) (first second : List (Option Command)) :
    w.answers (first ++ second) = w.answers first ++ (w.after first).answers second := by
  induction first generalizing w with
  | nil => rfl
  | cons line first ih =>
    rw [List.cons_append, answers_cons, ih, answers_cons, after_cons, List.cons_append]

/-- Each line is answered by the workspace that the lines before it leave behind. -/
theorem getElem?_answers (w : Workspace) (script : List (Option Command)) (i : Nat) :
    (w.answers script)[i]? =
      script[i]?.map fun line => ((w.after (script.take i)).step line).1 := by
  induction script generalizing w i with
  | nil => rfl
  | cons line script ih =>
    cases i with
    | zero => rfl
    | succ i =>
      rw [answers_cons, List.getElem?_cons_succ, ih, List.getElem?_cons_succ,
        List.take_succ_cons]
      rfl

/-- The tables after a script are the tables after the edits of its lines. -/
theorem store_after (w : Workspace) (script : List (Option Command)) :
    (w.after script).store = w.store.run (w.scriptEdits script) := by
  induction script generalizing w with
  | nil => rfl
  | cons line script ih =>
    rw [after_cons, ih, store_step, scriptEdits, TableStore.run_append]

/-- What is refused leaves no trace: a script without its refused lines gets the same
    answers to all others and ends in the same workspace. -/
theorem answers_accepted (w : Workspace) (script : List (Option Command)) :
    w.answers (w.accepted script) = (w.answers script).filter Except.isOk ∧
      w.after (w.accepted script) = w.after script := by
  induction script generalizing w with
  | nil => exact ⟨rfl, rfl⟩
  | cons line script ih =>
    obtain ⟨hanswers, hafter⟩ := ih (w.step line).2
    cases hstep : w.step line with
    | mk outcome v =>
      rw [hstep] at hanswers hafter
      cases outcome with
      | ok answer =>
        simp only [accepted, hstep, answers_cons, after_cons, hanswers, hafter, and_true]
        rfl
      | error fault =>
        -- The line is left out, and the workspace is still the one before it.
        have herror : (w.step line).1 = .error fault := by rw [hstep]
        have hv : v = w := by
          rw [← step_eq_of_error herror, hstep]
        subst hv
        simp only [accepted, hstep, answers_cons, after_cons, hanswers, hafter, and_true]
        rfl

/-! ## Permanent answers -/

/-- A command that does not go elsewhere leaves a current table that holds all that the
    last one held. -/
theorem Moves.growsTo_table (h : w.Moves command v) (hstays : command.stays = true) :
    w.table.GrowsTo v.table := by
  cases h with
  | create => cases hstays
  | duplicate =>
    rw [table_duplicate]
    exact .refl _
  | switch _ => cases hstays
  | register e =>
    rw [table_register]
    exact growsTo_push _ e
  | record _ => exact .refl _
  | question _ => exact .refl _

/-- So does a line, whether it is accepted or not. -/
theorem growsTo_table_step (h : ∀ command, line = some command → command.stays = true) :
    w.table.GrowsTo (w.step line).2.table := by
  rcases w.step_cases line with ⟨command, -, hline, -, hmove⟩ | ⟨-, -, hsame, -⟩
  · exact hmove.growsTo_table (h command hline)
  · rw [hsame]
    exact .refl _

/-- No script takes a table or an entry away. -/
theorem exists_growsTo_after (script : List (Option Command)) {i : Nat} {t : ExpansionTable}
    (h : w.store.table? i = some t) :
    ∃ u, (w.after script).store.table? i = some u ∧ t.GrowsTo u := by
  rw [store_after]
  exact TableStore.exists_growsTo_run h (w.scriptEdits script)

/-- When a script has come back, the current table has only grown. -/
theorem Returns.growsTo_table (h : w.Returns script) : w.table.GrowsTo (w.after script).table := by
  rcases h with hsame | hstays
  · -- It is the same table, and no line has taken anything away from it.
    obtain ⟨u, hu, hgrow⟩ := exists_growsTo_after script w.table?_current
    rw [← hsame, table?_current, Option.some.injEq] at hu
    exact hu ▸ hgrow
  · induction script generalizing w with
    | nil => exact .refl _
    | cons line script ih =>
      have hline : ∀ command, line = some command → command.stays = true := by
        rintro command rfl
        exact hstays command (List.mem_cons_self ..)
      have hrest : ∀ command, some command ∈ script → command.stays = true := by
        intro command hmem
        exact hstays command (List.mem_cons_of_mem _ hmem)
      exact (growsTo_table_step hline).trans (ih hrest)

/-- So whatever was resolved, in either coordinate, is resolved to the same position. -/
theorem resolve_table_after (h : w.Returns script) {c : Coordinate} {l : Location}
    {p : Position} (hp : w.table.resolve c l = some p) :
    (w.after script).table.resolve c l = some p :=
  h.growsTo_table.resolve_eq_some hp

/-- And what was accepted, by either question, is accepted. -/
theorem accepts_table_after (h : w.Returns script) {n : Node} :
    (∀ x, aligns w.table.spelling x n = true →
      aligns (w.after script).table.spelling x n = true) ∧
    (∀ ts, spelledFrom w.table.spelling ts n = true →
      spelledFrom (w.after script).table.spelling ts n = true) := by
  refine ⟨?_, ?_⟩
  · intro x hn
    exact aligns_of_refinedOn (h.growsTo_table.refinedOn _) hn
  · intro ts hn
    exact spelledFrom_of_refinedOn (h.growsTo_table.refinedOn _) hn

end Workspace

end MacroSpan
