/-
  MacroSpan.Expansion

  Tokens, the arguments that bind lists of tokens to macro parameters, and
  records of macro expansions: the tokens that one expansion produced and the
  arguments that were substituted into it. For the questions asked here a token
  is the location that it was produced at.

  A record has at least one definition token. `Expansion.record` is the only way
  from raw parts to a record and refuses an empty definition, so the first and
  the last definition token always exist.

  The definition and the arguments are the *runs* of a record. An opening token
  is the first token of a non-empty run, a closing token the last of one; both
  are the `edges` of the record, on one side or the other.
-/

import MacroSpan.Location

namespace MacroSpan

/-! ## Tokens and arguments -/

/-- A lexical token, reduced to its location. -/
structure Token where
  location : Location
deriving DecidableEq, Inhabited, Repr

/-- The tokens supplied for one parameter of a macro invocation; none at all for
    an argument that was left empty. -/
structure Argument where
  /-- Name of the parameter. -/
  name : String
  tokens : List Token
deriving DecidableEq, Inhabited, Repr

namespace Argument

/-- Whether the argument was left empty. -/
def isEmpty (a : Argument) : Bool := a.tokens.isEmpty

/-- The first token of a non-empty argument. -/
def first? (a : Argument) : Option Token := a.tokens.head?

/-- The last token of a non-empty argument. -/
def last? (a : Argument) : Option Token := a.tokens.getLast?

/-- The token at an edge of a non-empty argument. -/
def edge? (a : Argument) : Edge → Option Token
  | .first => a.first?
  | .last => a.last?

theorem edge?_eq (a : Argument) (e : Edge) : a.edge? e = e.of? a.tokens := by
  cases e <;> rfl

/-- An argument that was left empty is one without edges. -/
theorem edge?_eq_none_iff {a : Argument} {e : Edge} : a.edge? e = none ↔ a.isEmpty = true := by
  rw [edge?_eq, Edge.of?_eq_none_iff, isEmpty, List.isEmpty_iff]

end Argument

/-! ## Records -/

/-- Why a record is refused. -/
inductive RecordError where
  /-- The expansion of the named macro produced no token. -/
  | emptyDefinition (name : String)
deriving DecidableEq, Inhabited, Repr

/-- The wording of a refusal. -/
def RecordError.message : RecordError → String
  | emptyDefinition name => "expansion of macro `" ++ name ++ "` has no definition tokens"

/-- One macro expansion. -/
structure Expansion where
  /-- Name of the macro. -/
  name : String
  /-- The replacement tokens. -/
  definition : List Token
  arguments : List Argument
  definition_ne_nil : definition ≠ []
deriving DecidableEq, Repr

namespace Expansion

/-- Records an expansion, unless its definition is empty. -/
def record (name : String) (definition : List Token) (arguments : List Argument) :
    Except RecordError Expansion :=
  if h : definition = [] then
    .error (.emptyDefinition name)
  else
    .ok ⟨name, definition, arguments, h⟩

/-- What recording an expansion gives: the record or the refusal. -/
abbrev Outcome := Except RecordError Expansion

/-- A refusal equals a refusal of the same name and never equals a record. -/
instance : DecidableEq Outcome
  | .ok x, .ok y => decidable_of_iff (x = y) ⟨congrArg _, Except.ok.inj⟩
  | .error e, .error f => decidable_of_iff (e = f) ⟨congrArg _, Except.error.inj⟩
  | .ok _, .error _ => isFalse nofun
  | .error _, .ok _ => isFalse nofun

/-- A record keeps the parts that it was made from. -/
theorem record_eq_ok_iff {name : String} {definition : List Token} {arguments : List Argument}
    {x : Expansion} :
    record name definition arguments = .ok x ↔
      x.name = name ∧ x.definition = definition ∧ x.arguments = arguments := by
  obtain ⟨n, d, as, hd⟩ := x
  unfold record
  split <;> grind

/-- Nothing but an empty definition is refused, and the refusal names the macro. -/
theorem record_eq_error_iff {name : String} {definition : List Token}
    {arguments : List Argument} {e : RecordError} :
    record name definition arguments = .error e ↔
      definition = [] ∧ e = .emptyDefinition name := by
  unfold record
  split <;> grind

/-! ## Runs and their edges -/

/-- First token of the definition. -/
def firstToken (x : Expansion) : Token := x.definition.head x.definition_ne_nil

/-- Last token of the definition. -/
def lastToken (x : Expansion) : Token := x.definition.getLast x.definition_ne_nil

/-- The token at an edge of the definition. -/
def edge (x : Expansion) : Edge → Token
  | .first => x.firstToken
  | .last => x.lastToken

/-- The definition, and the tokens of each argument. -/
def runs (x : Expansion) : List (List Token) := x.definition :: x.arguments.map Argument.tokens

/-- The tokens at one edge of the definition and of each non-empty argument. -/
def edges (x : Expansion) (e : Edge) : List Token :=
  x.edge e :: x.arguments.filterMap (·.edge? e)

/-- First tokens of the non-empty runs. -/
def openings (x : Expansion) : List Token := x.edges .first

/-- Last tokens of the non-empty runs. -/
def closings (x : Expansion) : List Token := x.edges .last

/-- Whether some run has the given position at the given edge. -/
def hasEdgeAt (r : Resolver) (x : Expansion) (e : Edge) (p : Position) : Bool :=
  (x.edges e).any fun t => r t.location == some p

variable {r : Resolver} {x : Expansion} {e : Edge} {t : Token} {p : Position}

/-- The definition is not empty, so its edges are there without further ado. -/
theorem of?_definition (x : Expansion) (e : Edge) : e.of? x.definition = some (x.edge e) := by
  cases e with
  | first => exact List.head?_eq_some_head x.definition_ne_nil
  | last => exact List.getLast?_eq_some_getLast x.definition_ne_nil

/-- The edges of a record are the edges of its runs; the empty runs have none. -/
theorem edges_eq_filterMap (x : Expansion) (e : Edge) : x.edges e = x.runs.filterMap e.of? := by
  rw [runs, List.filterMap_cons, of?_definition, List.filterMap_map, edges]
  congr 2
  funext a
  exact a.edge?_eq e

theorem mem_edges : t ∈ x.edges e ↔ ∃ run ∈ x.runs, e.of? run = some t := by
  rw [edges_eq_filterMap, List.mem_filterMap]

/-- A position is found at an edge through a token that resolves to it. -/
theorem hasEdgeAt_iff : x.hasEdgeAt r e p = true ↔ ∃ t ∈ x.edges e, r t.location = some p := by
  simp [hasEdgeAt]

theorem definition_mem_runs (x : Expansion) : x.definition ∈ x.runs := List.mem_cons_self ..

theorem tokens_mem_runs {a : Argument} (ha : a ∈ x.arguments) : a.tokens ∈ x.runs :=
  List.mem_cons_of_mem _ (List.mem_map_of_mem ha)

end Expansion

end MacroSpan
