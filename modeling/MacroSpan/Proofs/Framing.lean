/-
  MacroSpan.Proofs.Framing

  How the two questions about nodes are related. To be spelled from a list of
  tokens is the stricter of the two, as soon as the list reaches from an edge of
  the expansion to an edge: then the first token puts the beginning of the node on
  an opening of the expansion, and the last token puts its end on a closing.

  `Expansion.Frames` describes such lists. The definition and every non-empty
  argument are among them, and so is whatever is put together from these.
-/

import MacroSpan.Proofs.Verdict

namespace MacroSpan

/-- The tokens begin with the first token of some non-empty run of the expansion
    and end with the last token of one, which may be another run. -/
def Expansion.Frames (x : Expansion) (ts : List Token) : Prop :=
  (∃ a ∈ x.openings, ts.head? = some a) ∧ ∃ b ∈ x.closings, ts.getLast? = some b

variable {r : Resolver} {x : Expansion} {ts us : List Token} {n : Node}

/-! ## Lists that an expansion frames -/

/-- At either edge a framed list has an edge of the expansion. -/
theorem Expansion.frames_iff : x.Frames ts ↔ ∀ e : Edge, ∃ t ∈ x.edges e, e.of? ts = some t := by
  rw [Edge.forall_iff]
  exact Iff.rfl

/-- A non-empty run is framed by its own edges. -/
theorem Expansion.frames_of_mem_runs (h : ts ∈ x.runs) (hne : ts ≠ []) : x.Frames ts := by
  rw [frames_iff]
  intro e
  obtain ⟨t, ht⟩ := e.exists_of? hne
  exact ⟨t, mem_edges.2 ⟨ts, h, ht⟩, ht⟩

theorem Expansion.Frames.append (hts : x.Frames ts) (hus : x.Frames us) : x.Frames (ts ++ us) := by
  obtain ⟨⟨a, ha, hhead⟩, -⟩ := hts
  obtain ⟨-, b, hb, hlast⟩ := hus
  refine ⟨⟨a, ha, ?_⟩, b, hb, ?_⟩
  · rw [List.head?_append, hhead]
    rfl
  · rw [List.getLast?_append, hlast]
    rfl

/-- Runs put together in any order, with any repetitions, are framed unless all of
    them are empty. -/
theorem Expansion.frames_flatten {pieces : List (List Token)} (h : pieces ⊆ x.runs)
    (hne : pieces.flatten ≠ []) : x.Frames pieces.flatten := by
  induction pieces with
  | nil => exact absurd List.flatten_nil hne
  | cons ts rest ih =>
    have hts : ts ∈ x.runs := h (List.mem_cons_self ..)
    have hrest : rest ⊆ x.runs := fun us hus => h (List.mem_cons_of_mem _ hus)
    rw [List.flatten_cons] at hne ⊢
    -- An empty part on either side drops out of the concatenation.
    by_cases htail : rest.flatten = []
    · rw [htail, List.append_nil] at hne ⊢
      exact frames_of_mem_runs hts hne
    · by_cases hhead : ts = []
      · rw [hhead, List.nil_append]
        exact ih hrest htail
      · exact (frames_of_mem_runs hts hhead).append (ih hrest htail)

/-! ## Spelled from framed tokens -/

/-- The hull of a framed list has edges of the expansion at both ends. -/
theorem Expansion.Frames.hasEdgeAt (h : x.Frames ts) {s : Span} (hs : s.isHull r ts = true)
    (e : Edge) : x.hasEdgeAt r e (s.edge e) = true := by
  obtain ⟨t, ht, hedge⟩ := frames_iff.1 h e
  obtain ⟨t', hedge', hpos⟩ := (Span.isHull_iff.1 hs).1 e
  have htt : t = t' := Option.some.inj (hedge.symm.trans hedge')
  subst htt
  exact hasEdgeAt_iff.2 ⟨t, ht, hpos⟩

/-- So a node that has this hull for a span aligns. -/
theorem Expansion.Frames.aligns_of_spelledFrom (h : x.Frames ts)
    (hn : spelledFrom r ts n = true) : aligns r x n = true := by
  obtain ⟨s, hspan, hhull⟩ := spelledFrom_iff.1 hn
  exact aligns_iff.2 ⟨s, hspan, h.hasEdgeAt hhull⟩

/-- A node that is spelled from tokens framed by an expansion aligns with the
    expansion, and so the nodes selected from any list for the former reason are
    among those selected for the latter, in the same order. The expansion frames its
    definition, each non-empty argument, and every non-empty concatenation of these
    lists. -/
theorem spelled_from_framed_tokens_aligns (r : Resolver) (x : Expansion) :
    (∀ ts, x.Frames ts → ∀ n, spelledFrom r ts n = true → aligns r x n = true) ∧
    (∀ ts, x.Frames ts → ∀ nodes,
      ((Matcher.spelled r ts).select nodes).Sublist ((Matcher.aligned r x).select nodes)) ∧
    x.Frames x.definition ∧
    (∀ a ∈ x.arguments, a.isEmpty = false → x.Frames a.tokens) ∧
    (∀ pieces, pieces ⊆ x.runs → pieces.flatten ≠ [] → x.Frames pieces.flatten) := by
  refine ⟨?_, ?_, ?_, ?_, ?_⟩
  · intro ts h n hn
    exact h.aligns_of_spelledFrom hn
  · intro ts h nodes
    apply Matcher.select_sublist
    intro n hn
    exact h.aligns_of_spelledFrom hn
  · exact Expansion.frames_of_mem_runs x.definition_mem_runs x.definition_ne_nil
  · intro a ha hne
    have hrun : a.tokens ∈ x.runs := Expansion.tokens_mem_runs ha
    exact Expansion.frames_of_mem_runs hrun (by simpa [Argument.isEmpty] using hne)
  · intro pieces h hne
    exact Expansion.frames_flatten h hne

/-- A node that reaches from the second argument to the end of the definition is
    spelled from the argument followed by the definition; the first argument is empty
    and takes no part. -/
theorem argument_then_definition_aligns :
    let r := (ExpansionTable.ofList [⟨.file ⟨⟨1⟩, 10⟩, .invalid⟩, ⟨.expanded 0, .invalid⟩]).spelling
    let x : Expansion := ⟨"F", [⟨.file ⟨⟨1⟩, 20⟩⟩, ⟨.file ⟨⟨1⟩, 24⟩⟩],
      [⟨"a", []⟩, ⟨"b", [⟨.expanded 1⟩, ⟨.file ⟨⟨1⟩, 12⟩⟩]⟩], by decide⟩
    let ts : List Token := [[⟨.expanded 1⟩, ⟨.file ⟨⟨1⟩, 12⟩⟩], [],
      [⟨.file ⟨⟨1⟩, 20⟩⟩, ⟨.file ⟨⟨1⟩, 24⟩⟩]].flatten
    let n : Node := ⟨.statement, ⟨.expanded 0, .file ⟨⟨1⟩, 24⟩⟩⟩
    x.Frames ts ∧ spelledFrom r ts n = true ∧ aligns r x n = true := by
  intro r x ts n
  obtain ⟨haligns, -, -, -, hflatten⟩ := spelled_from_framed_tokens_aligns r x
  have hframes : x.Frames ts := hflatten _ (by decide) (by decide)
  have hspelled : spelledFrom r ts n = true := by decide
  exact ⟨hframes, hspelled, haligns ts hframes n hspelled⟩

end MacroSpan
