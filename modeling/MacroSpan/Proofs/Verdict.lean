/-
  MacroSpan.Proofs.Verdict

  What a verdict on a node depends on. Each of the two questions consults a
  resolver at finitely many locations only: the ends of the node, and the edges
  of the expansion (`alignsConsults`) or all of the tokens (`spelledFromConsults`).

  `Resolver.RefinedOn r s ls` says that `s` repeats every answer of `r` at the
  locations `ls`. A positive verdict survives such a change of the resolver, so
  verdicts are monotone in the resolver, and two resolvers that agree at the
  consulted locations give the same verdict. Of the node itself only the span
  matters.

  A growing table is such a change of the resolver. A node that is accepted stays
  accepted, and so the selection from a list of nodes only gains members. A node
  that is refused can be accepted later only if one of the consulted chains ended
  at a number that was not registered: growth leaves all other answers as they
  were.
-/

import Mathlib.Data.List.Basic
import MacroSpan.Matching
import MacroSpan.Proofs.Failure

namespace MacroSpan

open ExpansionTable

/-- Every position that `r` gives to one of the locations `ls`, `s` gives too. -/
def Resolver.RefinedOn (r s : Resolver) (ls : List Location) : Prop :=
  ∀ l ∈ ls, ∀ p, r l = some p → s l = some p

/-- The locations at the two ends of a node. -/
def Node.ends (n : Node) : List Location := [n.extent.first, n.extent.last]

/-- The locations that `aligns` resolves: both ends of the node, and the edges of
    the definition and of each non-empty argument. -/
def alignsConsults (x : Expansion) (n : Node) : List Location :=
  n.ends ++ (x.openings ++ x.closings).map Token.location

/-- The locations that `spelledFrom` resolves: both ends of the node, and every
    token. -/
def spelledFromConsults (ts : List Token) (n : Node) : List Location :=
  n.ends ++ ts.map Token.location

variable {r s : Resolver} {x : Expansion} {ts : List Token} {n : Node}

/-! ## Refinement -/

theorem Resolver.RefinedOn.of_subset {ks ls : List Location} (h : r.RefinedOn s ls)
    (hsub : ks ⊆ ls) : r.RefinedOn s ks := fun l hl => h l (hsub hl)

theorem Resolver.refinedOn_of_eq {ls : List Location} (h : ∀ l ∈ ls, r l = s l) :
    r.RefinedOn s ls := by
  intro l hl p hp
  rw [← h l hl, hp]

theorem Resolver.RefinedOn.token (h : r.RefinedOn s (ts.map Token.location)) {t : Token}
    (ht : t ∈ ts) {p : Position} (hp : r t.location = some p) : s t.location = some p :=
  h t.location (List.mem_map_of_mem ht) p hp

/-- A node that had a span keeps it. -/
theorem Resolver.RefinedOn.span? (h : r.RefinedOn s n.ends) {sp : Span}
    (hsp : n.span? r = some sp) : n.span? s = some sp := by
  rw [Node.span?, Extent.span?_eq_some_iff] at hsp ⊢
  obtain ⟨hfirst, hlast⟩ := hsp
  exact ⟨h _ (by simp [Node.ends]) _ hfirst, h _ (by simp [Node.ends]) _ hlast⟩

/-! ## Alignment -/

theorem edges_subset_openings_append_closings (x : Expansion) (e : Edge) :
    x.edges e ⊆ x.openings ++ x.closings := by
  cases e with
  | first => exact List.subset_append_left _ _
  | last => exact List.subset_append_right _ _

/-- Whether a node aligns is decided by its span. -/
theorem aligns_eq_of_span?_eq {n' : Node} (h : n.span? r = n'.span? r) :
    aligns r x n = aligns r x n' := by
  unfold aligns
  rw [h]

/-- Alignment is kept by every resolver that repeats the consulted answers: the node
    keeps its span, and the tokens that matched its ends still do. -/
theorem aligns_of_refinedOn (h : r.RefinedOn s (alignsConsults x n))
    (hn : aligns r x n = true) : aligns s x n = true := by
  have hends : r.RefinedOn s n.ends := h.of_subset (List.subset_append_left _ _)
  have hedges : r.RefinedOn s ((x.openings ++ x.closings).map Token.location) :=
    h.of_subset (List.subset_append_right _ _)
  rw [aligns_iff] at hn ⊢
  obtain ⟨sp, hsp, hmatch⟩ := hn
  refine ⟨sp, hends.span? hsp, fun e => ?_⟩
  obtain ⟨t, ht, hpos⟩ := Expansion.hasEdgeAt_iff.1 (hmatch e)
  have hconsulted : t ∈ x.openings ++ x.closings := edges_subset_openings_append_closings x e ht
  exact Expansion.hasEdgeAt_iff.2 ⟨t, ht, hedges.token hconsulted hpos⟩

/-- Alignment is the same under resolvers that agree at the consulted locations. -/
theorem aligns_congr (h : ∀ l ∈ alignsConsults x n, r l = s l) :
    aligns r x n = aligns s x n := by
  rw [Bool.eq_iff_iff]
  refine ⟨?_, ?_⟩
  · exact aligns_of_refinedOn (Resolver.refinedOn_of_eq h)
  · exact aligns_of_refinedOn (Resolver.refinedOn_of_eq fun l hl => (h l hl).symm)

/-! ## Spelling -/

/-- Whether a node is spelled from tokens is decided by its span. -/
theorem spelledFrom_eq_of_span?_eq {n' : Node} (h : n.span? r = n'.span? r) :
    spelledFrom r ts n = spelledFrom r ts n' := by
  unfold spelledFrom
  rw [h]

/-- A hull stays the hull if all tokens are found where they were. -/
theorem Span.isHull_of_refinedOn {sp : Span} (h : r.RefinedOn s (ts.map Token.location))
    (hsp : sp.isHull r ts = true) : sp.isHull s ts = true := by
  rw [Span.isHull_iff] at hsp ⊢
  obtain ⟨hends, hall⟩ := hsp
  refine ⟨fun e => ?_, fun t ht => ?_⟩
  · obtain ⟨t, ht, hpos⟩ := hends e
    exact ⟨t, ht, h.token (Edge.mem_of_of? ht) hpos⟩
  · obtain ⟨p, hp, hmem⟩ := hall t ht
    exact ⟨p, h.token ht hp, hmem⟩

/-- To be spelled from tokens is kept by every resolver that repeats the consulted
    answers. -/
theorem spelledFrom_of_refinedOn (h : r.RefinedOn s (spelledFromConsults ts n))
    (hn : spelledFrom r ts n = true) : spelledFrom s ts n = true := by
  have hends : r.RefinedOn s n.ends := h.of_subset (List.subset_append_left _ _)
  have htokens : r.RefinedOn s (ts.map Token.location) :=
    h.of_subset (List.subset_append_right _ _)
  rw [spelledFrom_iff] at hn ⊢
  obtain ⟨sp, hsp, hhull⟩ := hn
  exact ⟨sp, hends.span? hsp, Span.isHull_of_refinedOn htokens hhull⟩

/-- Resolvers that agree at the ends of the node and at the tokens agree on whether the
    node is spelled from these. -/
theorem spelledFrom_congr (h : ∀ l ∈ spelledFromConsults ts n, r l = s l) :
    spelledFrom r ts n = spelledFrom s ts n := by
  rw [Bool.eq_iff_iff]
  refine ⟨?_, ?_⟩
  · exact spelledFrom_of_refinedOn (Resolver.refinedOn_of_eq h)
  · exact spelledFrom_of_refinedOn (Resolver.refinedOn_of_eq fun l hl => (h l hl).symm)

/-! ## Selections -/

/-- A matcher that accepts more selects more, in the same order. -/
theorem Matcher.select_sublist {m m' : Matcher}
    (h : ∀ n, m.accepts n = true → m'.accepts n = true) (nodes : List Node) :
    (m.select nodes).Sublist (m'.select nodes) := by
  rw [select_eq_filter, select_eq_filter]
  exact List.monotone_filter_right nodes h

/-! ## Growing tables

A verdict is settled once no consulted chain dangles. -/

variable {t u : ExpansionTable}

/-- A table that has grown repeats every answer, wherever it is asked. -/
theorem ExpansionTable.GrowsTo.refinedOn (h : t.GrowsTo u) (ls : List Location) :
    t.spelling.RefinedOn u.spelling ls :=
  fun _ _ _ hp => h.resolve_eq_some hp

/-- Growth does not change a settled verdict on alignment. -/
theorem aligns_eq_of_growsTo (h : t.GrowsTo u)
    (hsettled : ∀ l ∈ alignsConsults x n, ∀ k, ¬ t.DanglesAt .spelling l k) :
    aligns u.spelling x n = aligns t.spelling x n := by
  apply aligns_congr
  intro l hl
  exact h.resolve_eq (hsettled l hl)

/-- Growth does not change a settled verdict on spelling. -/
theorem spelledFrom_eq_of_growsTo (h : t.GrowsTo u)
    (hsettled : ∀ l ∈ spelledFromConsults ts n, ∀ k, ¬ t.DanglesAt .spelling l k) :
    spelledFrom u.spelling ts n = spelledFrom t.spelling ts n := by
  apply spelledFrom_congr
  intro l hl
  exact h.resolve_eq (hsettled l hl)

/-- Registration turns no verdict from true to false and takes no node out of a
    selection. A verdict that it turns from false to true consults some location
    whose chain, before the registrations, ended at a number that was not
    registered. -/
theorem verdicts_grow_with_table (t : ExpansionTable) (es : List Entry) :
    (∀ x n, aligns t.spelling x n = true → aligns (t.extend es).spelling x n = true) ∧
    (∀ ts n, spelledFrom t.spelling ts n = true →
      spelledFrom (t.extend es).spelling ts n = true) ∧
    (∀ x nodes, ((Matcher.aligned t.spelling x).select nodes).Sublist
      ((Matcher.aligned (t.extend es).spelling x).select nodes)) ∧
    (∀ ts nodes, ((Matcher.spelled t.spelling ts).select nodes).Sublist
      ((Matcher.spelled (t.extend es).spelling ts).select nodes)) ∧
    (∀ x n, aligns t.spelling x n = false → aligns (t.extend es).spelling x n = true →
      ∃ l ∈ alignsConsults x n, ∃ k, t.DanglesAt .spelling l k) ∧
    (∀ ts n, spelledFrom t.spelling ts n = false →
      spelledFrom (t.extend es).spelling ts n = true →
      ∃ l ∈ spelledFromConsults ts n, ∃ k, t.DanglesAt .spelling l k) := by
  have hgrow : t.GrowsTo (t.extend es) := growsTo_extend t es
  have haligns : ∀ x n, aligns t.spelling x n = true →
      aligns (t.extend es).spelling x n = true := by
    intro x n hn
    exact aligns_of_refinedOn (hgrow.refinedOn _) hn
  have hspelled : ∀ ts n, spelledFrom t.spelling ts n = true →
      spelledFrom (t.extend es).spelling ts n = true := by
    intro ts n hn
    exact spelledFrom_of_refinedOn (hgrow.refinedOn _) hn
  refine ⟨haligns, hspelled, ?_, ?_, ?_, ?_⟩
  · intro x nodes
    apply Matcher.select_sublist
    exact haligns x
  · intro ts nodes
    apply Matcher.select_sublist
    exact hspelled ts
  · -- If no consulted chain dangled, the verdict was settled and cannot have changed.
    intro x n hold hnew
    by_contra hnone
    push Not at hnone
    rw [aligns_eq_of_growsTo hgrow hnone, hold] at hnew
    exact Bool.false_ne_true hnew
  · intro ts n hold hnew
    by_contra hnone
    push Not at hnone
    rw [spelledFrom_eq_of_growsTo hgrow hnone, hold] at hnew
    exact Bool.false_ne_true hnew

/-- A token whose chain leads through entry 0 to the missing entry 1 is spelled
    nowhere until entry 1 is registered. -/
theorem verdict_turns_true_after_dangling :
    spelledFrom (ofList [⟨.expanded 1, .invalid⟩]).spelling [⟨.expanded 0⟩]
      ⟨.statement, ⟨.expanded 0, .expanded 1⟩⟩ = false ∧
    spelledFrom ((ofList [⟨.expanded 1, .invalid⟩]).extend
      [⟨.file ⟨⟨2⟩, 9⟩, .invalid⟩]).spelling [⟨.expanded 0⟩]
      ⟨.statement, ⟨.expanded 0, .expanded 1⟩⟩ = true ∧
    ∃ l ∈ spelledFromConsults [⟨.expanded 0⟩] ⟨.statement, ⟨.expanded 0, .expanded 1⟩⟩,
      ∃ k, (ofList [⟨.expanded 1, .invalid⟩]).DanglesAt .spelling l k := by
  have hold : spelledFrom (ofList [⟨.expanded 1, .invalid⟩]).spelling [⟨.expanded 0⟩]
      ⟨.statement, ⟨.expanded 0, .expanded 1⟩⟩ = false := by decide
  have hnew : spelledFrom ((ofList [⟨.expanded 1, .invalid⟩]).extend
      [⟨.file ⟨⟨2⟩, 9⟩, .invalid⟩]).spelling [⟨.expanded 0⟩]
      ⟨.statement, ⟨.expanded 0, .expanded 1⟩⟩ = true := by decide
  obtain ⟨-, -, -, -, -, hspelled⟩ :=
    verdicts_grow_with_table (ofList [⟨.expanded 1, .invalid⟩]) [⟨.file ⟨⟨2⟩, 9⟩, .invalid⟩]
  exact ⟨hold, hnew, hspelled _ _ hold hnew⟩

end MacroSpan
