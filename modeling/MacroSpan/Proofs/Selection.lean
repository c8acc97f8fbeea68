/-
  MacroSpan.Proofs.Selection

  Three ways to put one question to the nodes of a list: to ask the predicate of each
  node, to ask a matcher that is bound to it, and to let the matcher select from the
  whole list. `Matcher.SelectsAt` says that they agree, in terms of places and not of
  nodes, so that equal nodes at different places are told apart.

  The places are determined by the spans of the nodes, whatever the kinds and the raw
  locations are, and selections by different matchers can be made in either order.
-/

import Mathlib.Data.List.Sort
import MacroSpan.Proofs.Verdict

namespace MacroSpan.Matcher

/-- `places` are the places in a list of nodes, in ascending order, where the predicate
    holds. They are also where the matcher accepts and where the selected nodes come
    from, the latter both as nodes and as pairs of a node and its place. -/
structure SelectsAt (m : Matcher) (predicate : Node → Bool) (nodes : List Node)
    (places : List Nat) : Prop where
  ascending : places.Pairwise (· < ·)
  mem_iff : ∀ i, i ∈ places ↔ ∃ n, nodes[i]? = some n ∧ predicate n = true
  mem_iff_accepts : ∀ i, i ∈ places ↔ ∃ n, nodes[i]? = some n ∧ m.accepts n = true
  map_select : (m.select nodes).map some = places.map fun i => nodes[i]?
  map_snd_selectIdx : (m.selectIdx nodes).map Prod.snd = places

variable {m : Matcher} {predicate : Node → Bool} {nodes nodes' : List Node}

/-! ## Places of the selected nodes -/

theorem pairwise_lt_snd_selectIdx (m : Matcher) (nodes : List Node) :
    ((m.selectIdx nodes).map Prod.snd).Pairwise (· < ·) := by
  have hsub : ((m.selectIdx nodes).map Prod.snd).Sublist (nodes.zipIdx.map Prod.snd) :=
    List.filter_sublist.map Prod.snd
  rw [List.zipIdx_map_snd] at hsub
  exact List.Pairwise.sublist hsub List.pairwise_lt_range'

theorem mem_snd_selectIdx {i : Nat} :
    i ∈ (m.selectIdx nodes).map Prod.snd ↔
      ∃ n, nodes[i]? = some n ∧ m.accepts n = true := by
  simp [mem_selectIdx]

/-- The selection consists of the nodes at the places of the selected nodes. -/
theorem map_some_select (m : Matcher) (nodes : List Node) :
    (m.select nodes).map some = ((m.selectIdx nodes).map Prod.snd).map fun i => nodes[i]? := by
  rw [← map_fst_selectIdx, List.map_map, List.map_map]
  apply List.map_congr_left
  rintro ⟨n, i⟩ hmem
  exact (mem_selectIdx.1 hmem).1.symm

/-- A matcher bound to a predicate selects where the predicate holds. -/
theorem selectsAt_of_accepts_eq (h : ∀ n, m.accepts n = predicate n) (nodes : List Node) :
    m.SelectsAt predicate nodes ((m.selectIdx nodes).map Prod.snd) where
  ascending := m.pairwise_lt_snd_selectIdx nodes
  mem_iff i := by
    simp only [← h]
    exact mem_snd_selectIdx
  mem_iff_accepts _ := mem_snd_selectIdx
  map_select := m.map_some_select nodes
  map_snd_selectIdx := rfl

/-! ## Places depend on spans -/

theorem accepts_eq_of_span?_eq {n n' : Node}
    (h : n.span? m.resolver = n'.span? m.resolver) : m.accepts n = m.accepts n' := by
  cases m with
  | aligned r x => exact aligns_eq_of_span?_eq h
  | spelled r ts => exact spelledFrom_eq_of_span?_eq h

/-- What is accepted at some place is accepted there in every list with the same spans. -/
theorem exists_accepted_of_map_span?_eq
    (h : nodes.map (Node.span? m.resolver) = nodes'.map (Node.span? m.resolver)) {i : Nat}
    (hi : ∃ n, nodes[i]? = some n ∧ m.accepts n = true) :
    ∃ n', nodes'[i]? = some n' ∧ m.accepts n' = true := by
  obtain ⟨n, hn, haccepts⟩ := hi
  have hat : (nodes'[i]?).map (Node.span? m.resolver) = some (n.span? m.resolver) := by
    rw [← List.getElem?_map, ← h, List.getElem?_map, hn]
    rfl
  obtain ⟨n', hn', hspan⟩ := Option.map_eq_some_iff.1 hat
  rw [← accepts_eq_of_span?_eq hspan] at haccepts
  exact ⟨n', hn', haccepts⟩

/-- Lists of nodes with the same spans, one by one, are selected from at the same places:
    both lists of places ascend and have the same members. -/
theorem snd_selectIdx_eq_of_map_span?_eq
    (h : nodes.map (Node.span? m.resolver) = nodes'.map (Node.span? m.resolver)) :
    (m.selectIdx nodes).map Prod.snd = (m.selectIdx nodes').map Prod.snd := by
  apply (m.pairwise_lt_snd_selectIdx nodes).eq_of_mem_iff (m.pairwise_lt_snd_selectIdx nodes')
  intro i
  rw [mem_snd_selectIdx, mem_snd_selectIdx]
  exact ⟨exists_accepted_of_map_span?_eq h, exists_accepted_of_map_span?_eq h.symm⟩

/-- There is one list of places for all lists of nodes with the same spans. -/
theorem exists_selectsAt (h : ∀ n, m.accepts n = predicate n) (nodes : List Node) :
    ∃ places, m.SelectsAt predicate nodes places ∧
      ∀ nodes', nodes'.map (Node.span? m.resolver) = nodes.map (Node.span? m.resolver) →
        m.SelectsAt predicate nodes' places := by
  refine ⟨_, selectsAt_of_accepts_eq h nodes, ?_⟩
  intro nodes' hspans
  rw [← snd_selectIdx_eq_of_map_span?_eq hspans]
  exact selectsAt_of_accepts_eq h nodes'

theorem select_comm (m m' : Matcher) (nodes : List Node) :
    m.select (m'.select nodes) = m'.select (m.select nodes) :=
  List.filter_comm m.accepts m'.accepts nodes

/-- The ways of asking agree on every list of nodes, for both questions. There is one
    ascending list of places where the predicate holds and the matcher accepts, and the
    selected nodes are the nodes at these places. Nodes of any kind with the same spans, or
    without a span where there was none, leave the places as they are. Selecting by two
    matchers, one after the other, gives the same nodes in either order. -/
theorem predicate_matcher_and_selection_agree (r : Resolver) (x : Expansion) (ts : List Token)
    (nodes : List Node) :
    (∃ places, (aligned r x).SelectsAt (aligns r x) nodes places ∧
      ∀ nodes', nodes'.map (Node.span? r) = nodes.map (Node.span? r) →
        (aligned r x).SelectsAt (aligns r x) nodes' places) ∧
    (∃ places, (spelled r ts).SelectsAt (spelledFrom r ts) nodes places ∧
      ∀ nodes', nodes'.map (Node.span? r) = nodes.map (Node.span? r) →
        (spelled r ts).SelectsAt (spelledFrom r ts) nodes' places) ∧
    (∀ m m' : Matcher, m.select (m'.select nodes) = m'.select (m.select nodes)) := by
  refine ⟨?_, ?_, ?_⟩
  · exact exists_selectsAt (accepts_aligned r x) nodes
  · exact exists_selectsAt (accepts_spelled r ts) nodes
  · intro m m'
    exact select_comm m m' nodes

/-- The first and the third node are equal and both are spelled from the tokens; the
    second has no span. The nodes that replace them are of other kinds, two of them at
    other locations, and are selected at the same places. -/
theorem equal_nodes_selected_at_both_places :
    let r := (ExpansionTable.ofList [⟨.file ⟨⟨0⟩, 5⟩, .invalid⟩]).spelling
    let x : Expansion := ⟨"F", [⟨.file ⟨⟨0⟩, 2⟩⟩], [], by decide⟩
    let ts : List Token := [⟨.expanded 0⟩, ⟨.file ⟨⟨0⟩, 9⟩⟩]
    let n : Node := ⟨.declaration, ⟨.file ⟨⟨0⟩, 5⟩, .file ⟨⟨0⟩, 9⟩⟩⟩
    let nodes : List Node := [n, ⟨.statement, ⟨.expanded 1, .file ⟨⟨0⟩, 9⟩⟩⟩, n]
    let nodes' : List Node := [⟨.typeReference, ⟨.expanded 0, .file ⟨⟨0⟩, 9⟩⟩⟩,
      ⟨.declaration, ⟨.invalid, .invalid⟩⟩, ⟨.statement, n.extent⟩]
    nodes'.map (Node.span? r) = nodes.map (Node.span? r) ∧
      (spelled r ts).SelectsAt (spelledFrom r ts) nodes [0, 2] ∧
      (spelled r ts).SelectsAt (spelledFrom r ts) nodes' [0, 2] ∧
      (spelled r ts).select ((aligned r x).select nodes) = [] := by
  intro r x ts n nodes nodes'
  obtain ⟨-, ⟨places, hat, hspans⟩, hcomm⟩ := predicate_matcher_and_selection_agree r x ts nodes
  have heq : nodes'.map (Node.span? r) = nodes.map (Node.span? r) := by decide
  have hplaces : places = [0, 2] := by
    rw [← hat.map_snd_selectIdx]
    decide
  subst hplaces
  refine ⟨heq, hat, hspans nodes' heq, ?_⟩
  rw [hcomm]
  decide

end MacroSpan.Matcher
