/-
  MacroSpan.Workspace

  A workspace holds numbered expansion tables, one of which is current, and the
  expansion recorded last. Commands change it or ask about it.

  `Workspace.perform` hands out a new workspace only together with an answer, so
  a command that is refused leaves the workspace as it was. `step` takes one line
  of a script, and `answers` the whole of it.
-/

import MacroSpan.Matching
import MacroSpan.TableStore

namespace MacroSpan

/-! ## Commands and answers -/

/-- Where the tokens of a question come from. -/
inductive TokenSource where
  /-- They are given. -/
  | given (tokens : List Token)
  /-- They are the definition of the recorded expansion. -/
  | definition
  /-- They are an argument of the recorded expansion, counted from zero. -/
  | argument (index : Nat)
deriving DecidableEq, Inhabited, Repr

/-- What can be asked of a workspace. -/
inductive Command where
  /-- Makes an empty table and goes to it. -/
  | create
  /-- Makes a copy of the current table and goes to it. -/
  | duplicate
  /-- Goes to a table. -/
  | switch (number : Nat)
  /-- Registers an entry in the current table. -/
  | register (entry : Entry)
  /-- Asks for the profiles of locations. -/
  | inspect (locations : List Location)
  /-- Asks for the sizes of all tables and all answers of the current one. -/
  | overview
  /-- Asks for a span and for the membership of positions in it. -/
  | probe (extent : Extent) (positions : List Position)
  /-- Records an expansion. -/
  | record (name : String) (definition : List Token) (arguments : List Argument)
  /-- Asks which nodes align with the recorded expansion. -/
  | align (nodes : List Node)
  /-- Asks which nodes are spelled from tokens. -/
  | spell (source : TokenSource) (nodes : List Node)
deriving DecidableEq, Inhabited, Repr

/-- Why a command is refused. -/
inductive Fault where
  /-- It could not be read. -/
  | unreadable
  /-- It names a table that does not exist. -/
  | unknownTable (number : Nat)
  /-- It names an argument that the recorded expansion does not have. -/
  | unknownArgument (index : Nat)
  /-- It needs a recorded expansion and there is none. -/
  | noRecord
  /-- The expansion cannot be recorded. -/
  | refused (error : RecordError)
deriving DecidableEq, Inhabited, Repr

/-- The sizes of all tables and all answers of the current one. -/
structure Overview where
  current : Nat
  sizes : List Nat
  spellings : List (Option Position)
  expansions : List (Option Position)
deriving DecidableEq, Inhabited, Repr

/-- What a command answers. -/
inductive Answer where
  /-- The current table and its number. -/
  | current (number : Nat) (table : ExpansionTable)
  /-- The location handed out, its profile and the table that it is in. -/
  | registered (location : Location) (profile : Profile) (table : ExpansionTable)
  | profiles (profiles : List Profile)
  | overview (overview : Overview)
  /-- The span, if there is one, with the membership of each position. -/
  | span (result : Option (Span × List Bool))
  | recorded (expansion : Expansion)
  | survey (survey : Survey)
deriving DecidableEq, Repr

/-! ## The workspace -/

/-- Numbered tables, the number of the current one, and the recorded expansion. -/
structure Workspace where
  store : TableStore
  current : Nat
  current_lt : current < store.size
  recorded : Option Expansion
deriving DecidableEq, Repr

namespace Workspace

/-- One empty table, and no recorded expansion. -/
def initial : Workspace where
  store := ⟨#[.empty]⟩
  current := 0
  current_lt := by decide
  recorded := none

/-- The current table. -/
def table (w : Workspace) : ExpansionTable := w.store.table w.current w.current_lt

/-- The current table with its number, as an answer. -/
def answerCurrent (w : Workspace) : Answer × Workspace := (.current w.current w.table, w)

/-- Makes an empty table and goes to it. -/
def create (w : Workspace) : Workspace :=
  { w with
    store := w.store.apply .create
    current := w.store.size
    current_lt := by simp }

/-- Makes a copy of the current table and goes to it. -/
def duplicate (w : Workspace) : Workspace :=
  { w with
    store := w.store.apply (.duplicate w.current)
    current := w.store.size
    current_lt := by simp [TableStore.size_apply_duplicate w.current_lt] }

/-- Goes to a table that exists. -/
def switch (w : Workspace) (number : Nat) : Except Fault Workspace :=
  if h : number < w.store.size then
    .ok { w with current := number, current_lt := h }
  else
    .error (.unknownTable number)

/-- Registers an entry in the current table. -/
def register (w : Workspace) (e : Entry) : Workspace :=
  { w with
    store := w.store.apply (.register w.current e)
    current_lt := by simpa using w.current_lt }

/-- The sizes of all tables and all answers of the current one, in both coordinates. -/
def overview (w : Workspace) : Overview where
  current := w.current
  sizes := w.store.sizes
  spellings := w.table.listing .spelling
  expansions := w.table.listing .expansion

/-- The recorded expansion, which questions about alignment cannot do without. -/
def expansion (w : Workspace) : Except Fault Expansion :=
  match w.recorded with
  | some x => .ok x
  | none => .error .noRecord

/-- The tokens that a source stands for. That nothing is recorded is noticed
    before an argument is looked for. -/
def tokens (w : Workspace) : TokenSource → Except Fault (List Token)
  | .given ts => .ok ts
  | .definition => do return (← w.expansion).definition
  | .argument i => do
    match (← w.expansion).arguments[i]? with
    | some a => return a.tokens
    | none => throw (.unknownArgument i)

/-- Carries out one command. -/
def perform (w : Workspace) : Command → Except Fault (Answer × Workspace)
  | .create => return w.create.answerCurrent
  | .duplicate => return w.duplicate.answerCurrent
  | .switch number => return (← w.switch number).answerCurrent
  | .register e =>
    let v := w.register e
    -- The number is the one promised before; its answers are those of the grown table.
    return (.registered w.table.fresh (v.table.profile w.table.fresh) v.table, v)
  | .inspect ls => return (.profiles (ls.map w.table.profile), w)
  | .overview => return (.overview w.overview, w)
  | .probe extent ps => return (.span (extent.probe? w.table.spelling ps), w)
  | .record name definition arguments =>
    match Expansion.record name definition arguments with
    | .ok x => return (.recorded x, { w with recorded := some x })
    | .error e => throw (.refused e)
  | .align nodes => do
    let x ← w.expansion
    return (.survey (.aligned w.table.spelling x nodes), w)
  | .spell source nodes => do
    let ts ← w.tokens source
    return (.survey (.spelled w.table.spelling ts nodes), w)

/-- Takes one line of a script. A line that is not a command is answered as
    unreadable; it and every refused command leave the workspace as it was. -/
def step (w : Workspace) : Option Command → Except Fault Answer × Workspace
  | none => (.error .unreadable, w)
  | some command =>
    match w.perform command with
    | .ok (answer, v) => (.ok answer, v)
    | .error fault => (.error fault, w)

/-- Answers to a script, line by line. -/
def answers : Workspace → List (Option Command) → List (Except Fault Answer)
  | _, [] => []
  | w, line :: script =>
    match w.step line with
    | (answer, v) => answer :: v.answers script

/-! ## Tables of a workspace -/

theorem table?_current (w : Workspace) : w.store.table? w.current = some w.table :=
  TableStore.table?_eq_some w.current_lt

/-- The table to go to after `create` is the one just made. -/
@[simp] theorem table_create (w : Workspace) : w.create.table = .empty := by
  have h := TableStore.table?_apply_create w.store w.store.size
  rw [if_pos rfl] at h
  exact Option.some.inj (w.create.table?_current.symm.trans h)

/-- A copy holds what its source holds. -/
@[simp] theorem table_duplicate (w : Workspace) : w.duplicate.table = w.table := by
  have h := TableStore.table?_apply_duplicate w.current_lt w.store.size
  rw [if_pos rfl, table?_current] at h
  exact Option.some.inj (w.duplicate.table?_current.symm.trans h)

/-- Registration goes to the current table. -/
@[simp] theorem table_register (w : Workspace) (e : Entry) :
    (w.register e).table = w.table.push e := by
  have h := TableStore.table?_apply_register w.store w.current w.current e
  rw [if_pos rfl, table?_current] at h
  exact Option.some.inj ((w.register e).table?_current.symm.trans h)

end Workspace

end MacroSpan
