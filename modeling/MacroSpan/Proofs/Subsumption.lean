/-
  MacroSpan.Proofs.Subsumption

  Expansions compared by the nodes that align with them. Seen through a resolver an
  expansion is two sets of positions: where its runs begin and where they end. A node
  aligns if its span begins in the first set and ends in the second. Every position of
  the first set goes together with every position of the second, because a node may
  reach from any opening token to any closing token. So one expansion accepts all that
  another accepts exactly if it has both of the other's sets of positions, provided that
  the other accepts anything at all.

  The sets come from the edges of the non-empty runs. `Expansion.EdgesAmong` says that
  the edges of one expansion are found in another, run by run; names, empty arguments,
  the order and number of arguments and the tokens inside a run do not enter into it.
-/

import Mathlib.Data.List.Basic
import MacroSpan.ExpansionTable
import MacroSpan.Matching

namespace MacroSpan

namespace Expansion

/-- The positions where the resolver finds a token at the given edge of a run. -/
def edgePositions (r : Resolver) (x : Expansion) (e : Edge) : List Position :=
  (x.edges e).filterMap fun t => r t.location

/-- The positions where the resolver finds an opening token. -/
def openingPositions (r : Resolver) (x : Expansion) : List Position := x.edgePositions r .first

/-- The positions where the resolver finds a closing token. -/
def closingPositions (r : Resolver) (x : Expansion) : List Position := x.edgePositions r .last

/-- The same definition with other arguments. -/
def withArguments (x : Expansion) (arguments : List Argument) : Expansion :=
  { x with arguments := arguments }

/-- Each non-empty run of `x` has a counterpart among the runs of `y` that begins with
    the same token and ends with the same token. -/
def EdgesAmong (x y : Expansion) : Prop :=
  ∀ run ∈ x.runs, run ≠ [] →
    ∃ run' ∈ y.runs, ∀ e : Edge, e.of? run' = e.of? run

end Expansion

variable {r : Resolver} {x y : Expansion} {n : Node} {s : Span} {e : Edge} {p : Position}

/-! ## Positions of the edges -/

theorem Expansion.mem_edgePositions : p ∈ x.edgePositions r e ↔ x.hasEdgeAt r e p = true := by
  rw [hasEdgeAt_iff]
  exact List.mem_filterMap

/-- A node aligns if its span begins in one of the two sets and ends in the other. -/
theorem aligns_iff_mem_positions :
    aligns r x n = true ↔
      ∃ s, n.span? r = some s ∧ ∀ e, s.edge e ∈ x.edgePositions r e := by
  simp only [Expansion.mem_edgePositions]
  exact aligns_iff

/-- Any two edges are the ends of some node that aligns, whichever runs they belong to:
    the node from the location of the one token to the location of the other. -/
theorem Expansion.exists_aligns_between (h : ∀ e, s.edge e ∈ x.edgePositions r e) :
    ∃ n, n.span? r = some s ∧ aligns r x n = true := by
  obtain ⟨a, -, ha⟩ := List.mem_filterMap.1 (h .first)
  obtain ⟨b, -, hb⟩ := List.mem_filterMap.1 (h .last)
  have hspan : Node.span? r ⟨.statement, ⟨a.location, b.location⟩⟩ = some s :=
    Extent.span?_eq_some_iff.2 ⟨ha, hb⟩
  exact ⟨_, hspan, aligns_iff_mem_positions.2 ⟨s, hspan, h⟩⟩

/-- More positions at both edges accept more nodes. -/
theorem aligns_of_positions_subset (h : ∀ e, x.edgePositions r e ⊆ y.edgePositions r e)
    (hn : aligns r x n = true) : aligns r y n = true := by
  obtain ⟨s, hspan, hedges⟩ := aligns_iff_mem_positions.1 hn
  exact aligns_iff_mem_positions.2 ⟨s, hspan, fun e => h e (hedges e)⟩

/-- Where everything that aligns with `x` aligns with `y`, a node between two edges of
    `x` puts both of them among the edges of `y`. -/
theorem Expansion.mem_positions_of_aligns (h : ∀ n, aligns r x n = true → aligns r y n = true)
    (hs : ∀ e, s.edge e ∈ x.edgePositions r e) : ∀ e, s.edge e ∈ y.edgePositions r e := by
  obtain ⟨n, hspan, hn⟩ := exists_aligns_between hs
  obtain ⟨u, hu, hedges⟩ := aligns_iff_mem_positions.1 (h n hn)
  have hus : u = s := Option.some.inj (hu.symm.trans hspan)
  subst hus
  exact hedges

/-- Unless one of its two sets is empty, an expansion accepts no more than another exactly
    if its sets are contained in the other's. -/
theorem aligns_imp_iff_positions_subset (hne : ∀ e, x.edgePositions r e ≠ []) :
    (∀ n, aligns r x n = true → aligns r y n = true) ↔
      ∀ e, x.edgePositions r e ⊆ y.edgePositions r e := by
  obtain ⟨p₀, hp₀⟩ := List.exists_mem_of_ne_nil _ (hne .first)
  obtain ⟨q₀, hq₀⟩ := List.exists_mem_of_ne_nil _ (hne .last)
  refine ⟨?_, fun hsub n hn => aligns_of_positions_subset hsub hn⟩
  intro h e p hp
  -- A node between `p` and any position at the other edge aligns with `x`.
  cases e with
  | first =>
    have hs : ∀ e, Span.edge ⟨p, q₀⟩ e ∈ x.edgePositions r e := Edge.forall_iff.2 ⟨hp, hq₀⟩
    exact Expansion.mem_positions_of_aligns h hs .first
  | last =>
    have hs : ∀ e, Span.edge ⟨p₀, p⟩ e ∈ x.edgePositions r e := Edge.forall_iff.2 ⟨hp₀, hp⟩
    exact Expansion.mem_positions_of_aligns h hs .last

/-! ## Edges found in another expansion -/

namespace Expansion

/-- Every edge token of `x` is one of `y` if each non-empty run has a counterpart. -/
theorem EdgesAmong.edges_subset (h : x.EdgesAmong y) (e : Edge) : x.edges e ⊆ y.edges e := by
  intro t ht
  obtain ⟨run, hrun, hedge⟩ := mem_edges.1 ht
  have hne : run ≠ [] := List.ne_nil_of_mem (Edge.mem_of_of? hedge)
  obtain ⟨run', hrun', heq⟩ := h run hrun hne
  exact mem_edges.2 ⟨run', hrun', (heq e).trans hedge⟩

/-- So `y` accepts whatever `x` accepts, under any resolver. -/
theorem EdgesAmong.aligns (h : x.EdgesAmong y) (hn : aligns r x n = true) :
    aligns r y n = true :=
  aligns_of_positions_subset (fun e => List.filterMap_subset _ (h.edges_subset e)) hn

theorem EdgesAmong.aligns_eq (h : x.EdgesAmong y) (h' : y.EdgesAmong x) :
    MacroSpan.aligns r x n = MacroSpan.aligns r y n := by
  rw [Bool.eq_iff_iff]
  exact ⟨h.aligns, h'.aligns⟩

/-- Of the arguments only the non-empty ones matter, and of these only which ones
    occur. -/
theorem edgesAmong_withArguments {as bs : List Argument}
    (h : ∀ a ∈ as, a.isEmpty = false → a ∈ bs) :
    (x.withArguments as).EdgesAmong (x.withArguments bs) := by
  intro run hrun hne
  rcases List.mem_cons.1 hrun with rfl | hmem
  · exact ⟨_, definition_mem_runs _, fun _ => rfl⟩
  · obtain ⟨a, ha, rfl⟩ := List.mem_map.1 hmem
    have hb : a ∈ bs := h a ha (by simpa [Argument.isEmpty] using hne)
    exact ⟨_, tokens_mem_runs hb, fun _ => rfl⟩

/-- Runs with the same edges, one by one, are counterparts of each other. -/
theorem edgesAmong_of_map_edges_eq (h : ∀ e : Edge, x.runs.map e.of? = y.runs.map e.of?) :
    x.EdgesAmong y := by
  intro run hrun _
  obtain ⟨i, hi⟩ := List.getElem?_of_mem hrun
  have hat (e : Edge) : y.runs[i]?.map e.of? = some (e.of? run) := by
    rw [← List.getElem?_map, ← h e, List.getElem?_map, hi, Option.map_some]
  -- The counterpart is the run at the same place, whichever edge it is found by.
  obtain ⟨run', hi', -⟩ := Option.map_eq_some_iff.1 (hat .first)
  refine ⟨run', List.mem_of_getElem? hi', fun e => ?_⟩
  have heq := hat e
  rw [hi', Option.map_some, Option.some.injEq] at heq
  exact heq

end Expansion

/-! ## Few arguments -/

/-- Two selections from a list are contained in one that is no longer than both
    together. -/
theorem exists_sublist_containing {α : Type} {ks ls l : List α} (hk : ks.Sublist l)
    (hl : ls.Sublist l) :
    ∃ few, few.Sublist l ∧ few.length ≤ ks.length + ls.length ∧ ks ⊆ few ∧ ls ⊆ few := by
  induction l generalizing ks ls with
  | nil =>
    rw [List.sublist_nil] at hk hl
    subst hk hl
    exact ⟨[], List.Sublist.refl _, Nat.zero_le _, List.Subset.refl _, List.Subset.refl _⟩
  | cons a l ih =>
    -- The head is taken over as soon as one of the two selections takes it.
    cases hk with
    | cons _ hk =>
      cases hl with
      | cons _ hl =>
        obtain ⟨few, hfew, hlen, hks, hls⟩ := ih hk hl
        exact ⟨few, hfew.cons a, hlen, hks, hls⟩
      | cons_cons _ hl =>
        obtain ⟨few, hfew, hlen, hks, hls⟩ := ih hk hl
        refine ⟨a :: few, hfew.cons_cons a, ?_, ?_, List.cons_subset_cons a hls⟩
        · simp only [List.length_cons]
          omega
        · exact List.subset_cons_of_subset a hks
    | cons_cons _ hk =>
      cases hl with
      | cons _ hl =>
        obtain ⟨few, hfew, hlen, hks, hls⟩ := ih hk hl
        refine ⟨a :: few, hfew.cons_cons a, ?_, List.cons_subset_cons a hks, ?_⟩
        · simp only [List.length_cons]
          omega
        · exact List.subset_cons_of_subset a hls
      | cons_cons _ hl =>
        obtain ⟨few, hfew, hlen, hks, hls⟩ := ih hk hl
        refine ⟨a :: few, hfew.cons_cons a, ?_, List.cons_subset_cons a hks,
          List.cons_subset_cons a hls⟩
        simp only [List.length_cons]
        omega

namespace Expansion

/-- A position at an edge comes from the definition or from one argument, and is still
    there in every record with this argument. -/
theorem exists_argument_with_edge (h : x.hasEdgeAt r e p = true) :
    ∃ few, few.Sublist x.arguments ∧ few.length ≤ 1 ∧
      ∀ as, few ⊆ as → (x.withArguments as).hasEdgeAt r e p = true := by
  obtain ⟨t, ht, hpos⟩ := hasEdgeAt_iff.1 h
  obtain ⟨run, hrun, hedge⟩ := mem_edges.1 ht
  rcases List.mem_cons.1 hrun with rfl | hmem
  · refine ⟨[], List.nil_sublist _, Nat.zero_le _, fun as _ => ?_⟩
    exact hasEdgeAt_iff.2 ⟨t, mem_edges.2 ⟨_, definition_mem_runs _, hedge⟩, hpos⟩
  · obtain ⟨a, ha, rfl⟩ := List.mem_map.1 hmem
    refine ⟨[a], List.singleton_sublist.2 ha, Nat.le_refl _, fun as hsub => ?_⟩
    have hrun' : a.tokens ∈ (x.withArguments as).runs :=
      tokens_mem_runs (hsub (List.mem_singleton_self a))
    exact hasEdgeAt_iff.2 ⟨t, mem_edges.2 ⟨_, hrun', hedge⟩, hpos⟩

end Expansion

/-- A node that aligns needs at most one argument for each of its ends. -/
theorem exists_two_arguments_align (hn : aligns r x n = true) :
    ∃ few, few.Sublist x.arguments ∧ few.length ≤ 2 ∧
      aligns r (x.withArguments few) n = true := by
  obtain ⟨s, hspan, hedges⟩ := aligns_iff.1 hn
  obtain ⟨ks, hks, hkslen, hopen⟩ := Expansion.exists_argument_with_edge (hedges .first)
  obtain ⟨ls, hls, hlslen, hclose⟩ := Expansion.exists_argument_with_edge (hedges .last)
  obtain ⟨few, hfew, hlen, hksub, hlsub⟩ := exists_sublist_containing hks hls
  refine ⟨few, hfew, by omega, aligns_iff.2 ⟨s, hspan, Edge.forall_iff.2 ⟨?_, ?_⟩⟩⟩
  · exact hopen few hksub
  · exact hclose few hlsub

/-! ## Which expansions accept more -/

/-- Unless nothing aligns with `x` for want of a position, everything that aligns with `x`
    aligns with `y` exactly if the positions of the openings and of the closings of `x`
    are among those of `y`.

    In particular no verdict changes if the arguments are put in another order or
    repeated or if empty ones come or go, as long as the same non-empty arguments occur;
    nor if names change or tokens inside the runs, as long as the runs have the same first
    and last tokens, one by one. Further arguments turn no verdict from true to false. And
    of the arguments that there are, two are enough to accept a node that is accepted. -/
theorem expansions_ordered_by_edge_positions (r : Resolver) (x : Expansion) :
    (∀ y, x.openingPositions r ≠ [] → x.closingPositions r ≠ [] →
      ((∀ n, aligns r x n = true → aligns r y n = true) ↔
        x.openingPositions r ⊆ y.openingPositions r ∧
          x.closingPositions r ⊆ y.closingPositions r)) ∧
    (∀ as, (∀ a, a.isEmpty = false → (a ∈ as ↔ a ∈ x.arguments)) →
      ∀ n, aligns r (x.withArguments as) n = aligns r x n) ∧
    (∀ y, y.runs.map List.head? = x.runs.map List.head? →
      y.runs.map List.getLast? = x.runs.map List.getLast? →
      ∀ n, aligns r y n = aligns r x n) ∧
    (∀ as, x.arguments ⊆ as → ∀ n, aligns r x n = true →
      aligns r (x.withArguments as) n = true) ∧
    (∀ n, aligns r x n = true → ∃ few, few.Sublist x.arguments ∧ few.length ≤ 2 ∧
      aligns r (x.withArguments few) n = true) := by
  refine ⟨?_, ?_, ?_, ?_, ?_⟩
  · intro y hopen hclose
    rw [aligns_imp_iff_positions_subset (Edge.forall_iff.2 ⟨hopen, hclose⟩), Edge.forall_iff]
    exact Iff.rfl
  · intro as h n
    apply Expansion.EdgesAmong.aligns_eq
    · exact Expansion.edgesAmong_withArguments fun a ha hne => (h a hne).1 ha
    · exact Expansion.edgesAmong_withArguments fun a ha hne => (h a hne).2 ha
  · intro y hhead hlast n
    apply Expansion.EdgesAmong.aligns_eq
    · exact Expansion.edgesAmong_of_map_edges_eq (Edge.forall_iff.2 ⟨hhead, hlast⟩)
    · exact Expansion.edgesAmong_of_map_edges_eq (Edge.forall_iff.2 ⟨hhead.symm, hlast.symm⟩)
  · intro as hsub n hn
    have hedges : x.EdgesAmong (x.withArguments as) :=
      Expansion.edgesAmong_withArguments fun a ha _ => hsub ha
    exact hedges.aligns hn
  · intro n hn
    exact exists_two_arguments_align hn

/-- The edges of `x` are edges of `y`, but not the other way round. A node from the
    argument of `x` to the end of its definition aligns with `x`, with the argument
    repeated between empty ones, with its middle token and all names changed, with a
    further argument, and already with at most two of the arguments. -/
theorem larger_expansion_accepts_more :
    let r := (ExpansionTable.ofList [⟨.file ⟨⟨0⟩, 5⟩, .invalid⟩]).spelling
    let token (offset : UInt32) : Token := ⟨.file ⟨⟨0⟩, offset⟩⟩
    let a : Argument := ⟨"a", [token 1, token 2, token 3]⟩
    let x : Expansion := ⟨"F", [⟨.expanded 0⟩, token 9], [a], by decide⟩
    let y : Expansion := ⟨"G", [token 1, token 3], [⟨"b", [token 6]⟩, ⟨"c", [token 5, token 9]⟩],
      by decide⟩
    let z : Expansion := ⟨"H", [⟨.expanded 0⟩, token 9], [⟨"d", [token 1, token 3]⟩], by decide⟩
    let n : Node := ⟨.statement, ⟨.file ⟨⟨0⟩, 1⟩, .file ⟨⟨0⟩, 9⟩⟩⟩
    x.openingPositions r ≠ [] ∧ x.closingPositions r ≠ [] ∧
      (∀ n, aligns r x n = true → aligns r y n = true) ∧
      ¬ (∀ n, aligns r y n = true → aligns r x n = true) ∧
      aligns r x n = true ∧
      aligns r (x.withArguments [⟨"", []⟩, a, a, ⟨"", []⟩]) n = aligns r x n ∧
      aligns r z n = aligns r x n ∧
      aligns r (x.withArguments [⟨"e", [token 7]⟩, a]) n = true ∧
      ∃ few, few.Sublist x.arguments ∧ few.length ≤ 2 ∧
        aligns r (x.withArguments few) n = true := by
  intro r token a x y z n
  obtain ⟨hx, harguments, hedges, hmore, hfew⟩ := expansions_ordered_by_edge_positions r x
  obtain ⟨hy, -⟩ := expansions_ordered_by_edge_positions r y
  have hn : aligns r x n = true := by decide
  refine ⟨by decide, by decide, ?_, ?_, hn, ?_, ?_, ?_, hfew n hn⟩
  · exact (hx y (by decide) (by decide)).2 (by decide)
  · intro h
    exact absurd ((hy x (by decide) (by decide)).1 h) (by decide)
  · refine harguments _ ?_ n
    intro b hb
    have hne : b ≠ ⟨"", []⟩ := by
      rintro rfl
      cases hb
    simp [x, hne]
  · exact hedges z (by decide) (by decide) n
  · exact hmore _ (by decide) n hn

end MacroSpan
