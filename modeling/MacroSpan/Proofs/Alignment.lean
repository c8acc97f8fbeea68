/-
  MacroSpan.Proofs.Alignment

  Alignment from raw parts to verdict. Recording refuses a macro expansion exactly if
  its definition is empty, and says which macro it was. For every other one there is a
  record, and `aligns` decides a question that needs no record to be stated: whether
  both ends of the node resolve, the first of them to where some non-empty list among
  the definition and the arguments starts and the last to where one stops.

  The two lists are looked for independently. An empty argument has no token at any
  index and cannot be either of them, and a token that does not resolve matches no end:
  positions are compared, never failures.
-/

import MacroSpan.Matching

namespace MacroSpan

/-- The token at the given index of a list is there, and the resolver finds it at `p`. -/
def SpelledAt (r : Resolver) (ts : List Token) (index : Nat) (p : Position) : Prop :=
  ∃ t, ts[index]? = some t ∧ r t.location = some p

variable {r : Resolver} {x : Expansion} {n : Node} {p : Position}

theorem SpelledAt.ne_nil {ts : List Token} {index : Nat} (h : SpelledAt r ts index p) :
    ts ≠ [] := by
  rintro rfl
  obtain ⟨t, ht, -⟩ := h
  rw [List.getElem?_nil] at ht
  cases ht

/-! ## Edges, by index -/

/-- The index at which the edge of a list is found. -/
def Edge.index (ts : List Token) : Edge → Nat
  | .first => 0
  | .last => ts.length - 1

theorem Edge.of?_eq_getElem? (e : Edge) (ts : List Token) : e.of? ts = ts[e.index ts]? := by
  cases e with
  | first => exact List.head?_eq_getElem?
  | last => exact List.getLast?_eq_getElem?

namespace Expansion

/-- The edges of the definition are found at its first and its last index. -/
theorem getElem?_definition (x : Expansion) (e : Edge) :
    x.definition[e.index x.definition]? = some (x.edge e) := by
  rw [← Edge.of?_eq_getElem?, of?_definition]

/-- Some run has the position at an edge exactly if, in some non-empty run, the token at
    the index of that edge is spelled there. -/
theorem hasEdgeAt_iff_spelledAt {e : Edge} :
    x.hasEdgeAt r e p = true ↔ ∃ run ∈ x.runs, run ≠ [] ∧ SpelledAt r run (e.index run) p := by
  rw [hasEdgeAt_iff]
  refine ⟨?_, ?_⟩
  · rintro ⟨t, ht, hp⟩
    obtain ⟨run, hrun, hat⟩ := mem_edges.1 ht
    rw [Edge.of?_eq_getElem?] at hat
    have hspelled : SpelledAt r run (e.index run) p := ⟨t, hat, hp⟩
    exact ⟨run, hrun, hspelled.ne_nil, hspelled⟩
  · rintro ⟨run, hrun, -, t, hat, hp⟩
    rw [← Edge.of?_eq_getElem?] at hat
    exact ⟨t, mem_edges.2 ⟨run, hrun, hat⟩, hp⟩

theorem exists_record (name : String) {definition : List Token} (arguments : List Argument)
    (h : definition ≠ []) :
    ∃ x, record name definition arguments = .ok x ∧ x.definition = definition ∧
      x.runs = definition :: arguments.map Argument.tokens := by
  refine ⟨⟨name, definition, arguments, h⟩, ?_, rfl, rfl⟩
  rw [record_eq_ok_iff]
  exact ⟨rfl, rfl, rfl⟩

end Expansion

/-! ## Verdicts -/

/-- Alignment without records: both ends of the node resolve, and each of them is found
    at the index of its edge in some non-empty run. -/
theorem aligns_iff_spelledAt :
    aligns r x n = true ↔
      ∃ p q, r n.extent.first = some p ∧ r n.extent.last = some q ∧
        (∃ run ∈ x.runs, run ≠ [] ∧ SpelledAt r run 0 p) ∧
        ∃ run ∈ x.runs, run ≠ [] ∧ SpelledAt r run (run.length - 1) q := by
  simp only [aligns_iff, Edge.forall_iff, Expansion.hasEdgeAt_iff_spelledAt]
  refine ⟨?_, ?_⟩
  · rintro ⟨s, hspan, hopen, hclose⟩
    obtain ⟨hfirst, hlast⟩ := Extent.span?_eq_some_iff.1 hspan
    exact ⟨s.first, s.last, hfirst, hlast, hopen, hclose⟩
  · rintro ⟨p, q, hfirst, hlast, hopen, hclose⟩
    exact ⟨⟨p, q⟩, Extent.span?_eq_some_iff.2 ⟨hfirst, hlast⟩, hopen, hclose⟩

theorem aligns_eq_false_of_unresolved
    (h : r n.extent.first = none ∨ r n.extent.last = none) : aligns r x n = false := by
  have hspan : n.span? r = none := Extent.span?_eq_none_iff.2 h
  unfold aligns
  rw [hspan]

/-- Alignment, from the parts of an expansion on. The parts are refused exactly if the
    definition is empty, with the name that was given. Otherwise they make a record whose
    first and last token are the definition's, and a node aligns with it exactly if its
    first end resolves to the position of the token at index 0 of some non-empty list
    among the definition and the arguments, and its last end to the position of the token
    at the last index of some such list, be it the same one or another. In particular a
    node with an end that does not resolve never aligns, whatever else fails to resolve
    with it. -/
theorem record_refuses_or_aligns_by_edges (name : String) (definition : List Token)
    (arguments : List Argument) :
    (∀ e, Expansion.record name definition arguments = .error e ↔
      definition = [] ∧ e = .emptyDefinition name) ∧
    (definition ≠ [] → ∃ x, Expansion.record name definition arguments = .ok x ∧
      definition[0]? = some x.firstToken ∧
      definition[definition.length - 1]? = some x.lastToken ∧
      (∀ r n, aligns r x n = true ↔
        ∃ p q, r n.extent.first = some p ∧ r n.extent.last = some q ∧
          (∃ ts ∈ definition :: arguments.map Argument.tokens, ts ≠ [] ∧ SpelledAt r ts 0 p) ∧
          ∃ ts ∈ definition :: arguments.map Argument.tokens,
            ts ≠ [] ∧ SpelledAt r ts (ts.length - 1) q) ∧
      (∀ r n, r n.extent.first = none ∨ r n.extent.last = none → aligns r x n = false)) := by
  constructor
  · intro e
    exact Expansion.record_eq_error_iff
  · intro hne
    obtain ⟨x, hx, hdefinition, hruns⟩ := Expansion.exists_record name arguments hne
    refine ⟨x, hx, ?_, ?_, ?_, ?_⟩
    · rw [← hdefinition]
      exact x.getElem?_definition .first
    · rw [← hdefinition]
      exact x.getElem?_definition .last
    · intro r n
      rw [← hruns]
      exact aligns_iff_spelledAt
    · intro r n h
      exact aligns_eq_false_of_unresolved h

/-- This resolver finds even the invalid location, and moves the one file location that
    it knows. The first node begins with the second argument and ends with the
    definition. The second begins at the location of the definition's first token, which
    does not resolve. -/
theorem resolved_edges_align_unresolved_edges_do_not :
    let r := Resolver.ofRows [(.file ⟨⟨0⟩, 5⟩, some ⟨⟨1⟩, 2⟩), (.invalid, some ⟨⟨1⟩, 9⟩)]
    let definition : List Token := [⟨.expanded 4⟩, ⟨.invalid⟩]
    let arguments : List Argument := [⟨"a", []⟩, ⟨"b", [⟨.file ⟨⟨0⟩, 5⟩⟩]⟩]
    definition ≠ [] ∧ ∃ x, Expansion.record "F" definition arguments = .ok x ∧
      aligns r x ⟨.typeReference, ⟨.file ⟨⟨0⟩, 5⟩, .invalid⟩⟩ = true ∧
      aligns r x ⟨.typeReference, ⟨.expanded 4, .invalid⟩⟩ = false := by
  intro r definition arguments
  have hne : definition ≠ [] := by decide
  obtain ⟨-, hok⟩ := record_refuses_or_aligns_by_edges "F" definition arguments
  obtain ⟨x, hx, -, -, hiff, hunresolved⟩ := hok hne
  refine ⟨hne, x, hx, (hiff r _).2 ⟨⟨⟨1⟩, 2⟩, ⟨⟨1⟩, 9⟩, rfl, rfl, ?_, ?_⟩, ?_⟩
  · have hb : SpelledAt r [⟨.file ⟨⟨0⟩, 5⟩⟩] 0 ⟨⟨1⟩, 2⟩ := ⟨_, rfl, rfl⟩
    exact ⟨_, by decide, hb.ne_nil, hb⟩
  · have hdefinition : SpelledAt r definition (definition.length - 1) ⟨⟨1⟩, 9⟩ := ⟨_, rfl, rfl⟩
    exact ⟨_, by decide, hdefinition.ne_nil, hdefinition⟩
  · exact hunresolved r _ (.inl rfl)

end MacroSpan
