/-
  MacroSpan.Relocation

  Syntax with its locations replaced. `relocate f` applies `f` to every location
  in a token, an argument, an expansion or a node and changes nothing else.

  Both questions about nodes see locations only through the resolver, so to
  relocate the syntax is to compose the resolver with `f`: `aligns_relocate`
  and `spelledFrom_relocate`.
-/

import MacroSpan.Matching

namespace MacroSpan

/-- The location at an optional position: invalid where there is none. -/
def Location.ofOption : Option Position → Location
  | some p => .file p
  | none => .invalid

/-- Replaces the number of an expanded location. -/
def Location.renumber (ρ : Nat → Nat) : Location → Location
  | .expanded i => .expanded (ρ i)
  | .file p => .file p
  | .invalid => .invalid

/-! ## Relocating syntax -/

/-- The token at the replaced location. -/
def Token.relocate (f : Location → Location) (t : Token) : Token := ⟨f t.location⟩

/-- The argument of the same name with its tokens relocated. -/
def Argument.relocate (f : Location → Location) (a : Argument) : Argument :=
  ⟨a.name, a.tokens.map (Token.relocate f)⟩

/-- The expansion of the same macro with all of its tokens relocated. -/
def Expansion.relocate (f : Location → Location) (x : Expansion) : Expansion where
  name := x.name
  definition := x.definition.map (Token.relocate f)
  arguments := x.arguments.map (Argument.relocate f)
  definition_ne_nil := by simpa using x.definition_ne_nil

/-- The extent between the replaced locations. -/
def Extent.relocate (f : Location → Location) (e : Extent) : Extent := ⟨f e.first, f e.last⟩

/-- The node of the same kind with its extent relocated. -/
def Node.relocate (f : Location → Location) (n : Node) : Node := ⟨n.kind, n.extent.relocate f⟩

/-! ## Resolving relocated syntax -/

@[simp] theorem Token.location_relocate (f : Location → Location) (t : Token) :
    (t.relocate f).location = f t.location := rfl

@[simp] theorem Node.span?_relocate (r : Resolver) (f : Location → Location) (n : Node) :
    (n.relocate f).span? r = n.span? (r ∘ f) := rfl

namespace Expansion

/-- Relocation goes run by run and token by token. -/
theorem runs_relocate (f : Location → Location) (x : Expansion) :
    (x.relocate f).runs = x.runs.map (List.map (Token.relocate f)) := by
  simp [runs, relocate, Argument.relocate, Function.comp_def]

/-- The edges of a relocated expansion are the relocated edges. -/
theorem edges_relocate (f : Location → Location) (x : Expansion) (e : Edge) :
    (x.relocate f).edges e = (x.edges e).map (Token.relocate f) := by
  rw [edges_eq_filterMap, edges_eq_filterMap, runs_relocate, List.filterMap_map,
    List.map_filterMap]
  congr 1
  funext run
  exact e.of?_map (Token.relocate f) run

@[simp] theorem hasEdgeAt_relocate (r : Resolver) (f : Location → Location) (x : Expansion)
    (e : Edge) (p : Position) : (x.relocate f).hasEdgeAt r e p = x.hasEdgeAt (r ∘ f) e p := by
  simp [hasEdgeAt, edges_relocate, List.any_map, Function.comp_def]

end Expansion

/-- Alignment of relocated syntax is alignment under the composed resolver. -/
theorem aligns_relocate (r : Resolver) (f : Location → Location) (x : Expansion) (n : Node) :
    aligns r (x.relocate f) (n.relocate f) = aligns (r ∘ f) x n := by
  simp [aligns]

@[simp] theorem Span.isHull_relocate (r : Resolver) (f : Location → Location) (ts : List Token)
    (s : Span) : s.isHull r (ts.map (Token.relocate f)) = s.isHull (r ∘ f) ts := by
  unfold isHull
  rw [List.head?_map, List.getLast?_map]
  cases ts.head? <;> cases ts.getLast? <;> simp [List.all_map, Function.comp_def]

/-- Relocated nodes and tokens match as they do under the composed resolver. -/
theorem spelledFrom_relocate (r : Resolver) (f : Location → Location) (ts : List Token)
    (n : Node) :
    spelledFrom r (ts.map (Token.relocate f)) (n.relocate f) = spelledFrom (r ∘ f) ts n := by
  simp [spelledFrom, funext (Span.isHull_relocate r f ts)]

end MacroSpan
