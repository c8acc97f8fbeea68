/-
  MacroSpan.Proofs.Hull

  The nodes that are spelled from a list of tokens. `spelledFrom` compares the ends of
  a node with the first and the last token and then looks whether each token lies
  between the ends; it computes no extremes. What it decides is nevertheless a question
  about extremes: whether the node begins at the least and ends at the greatest of the
  tokens' positions, and whether these are the positions of the first and the last
  token (`Span.isHull_iff_extremes`).

  So a list of tokens has at most one hull, its ends are in order, and to be spelled
  from the tokens is to have the hull for a span (`spelledFrom_iff_span?_eq`).
-/

import MacroSpan.Matching
import MacroSpan.Position.Listing

namespace MacroSpan

/-- The resolver finds every token of the list, and finds them, one by one, at the
    positions `ps`. -/
def SpelledAs (r : Resolver) (ts : List Token) (ps : List Position) : Prop :=
  ts.map (fun t => r t.location) = ps.map some

variable {r : Resolver} {ts : List Token} {ps : List Position} {n : Node} {s u : Span}

/-! ## Lists of tokens and of positions -/

namespace SpelledAs

/-- The token at an edge is found where the position at that edge says. -/
theorem edge_eq_some_iff (h : SpelledAs r ts ps) {e : Edge} {p : Position} :
    (∃ t, e.of? ts = some t ∧ r t.location = some p) ↔ e.of? ps = some p := by
  have hedges := congrArg e.of? h
  rw [Edge.of?_map, Edge.of?_map] at hedges
  rw [← Option.map_eq_some_iff, hedges, Option.map_eq_some_iff]
  simp

theorem mem_iff (h : SpelledAs r ts ps) {p : Position} :
    p ∈ ps ↔ ∃ t ∈ ts, r t.location = some p := by
  have hmem : some p ∈ ps.map some ↔ some p ∈ ts.map fun t => r t.location := by rw [h]
  simpa using hmem

end SpelledAs

/-- There are such positions as soon as each token is found. -/
theorem exists_spelledAs (h : ∀ t ∈ ts, ∃ p, r t.location = some p) :
    ∃ ps, SpelledAs r ts ps := by
  induction ts with
  | nil => exact ⟨[], rfl⟩
  | cons t rest ih =>
    obtain ⟨p, hp⟩ := h t (List.mem_cons_self ..)
    obtain ⟨ps, hps⟩ := ih fun t' ht' => h t' (List.mem_cons_of_mem _ ht')
    refine ⟨p :: ps, ?_⟩
    rw [SpelledAs, List.map_cons, List.map_cons, hp, hps]

/-! ## Hulls -/

namespace Span

/-- Every token of the list is spelled inside the span. -/
def Holds (r : Resolver) (ts : List Token) (s : Span) : Prop :=
  ∀ t ∈ ts, ∃ p, r t.location = some p ∧ p ∈ s

theorem holds_iff_of_spelledAs (h : SpelledAs r ts ps) :
    s.Holds r ts ↔ ∀ p ∈ ps, s.first ≤ p ∧ p ≤ s.last := by
  refine ⟨?_, ?_⟩
  · intro hall p hp
    obtain ⟨t, ht, hpos⟩ := h.mem_iff.1 hp
    obtain ⟨q, hq, hmem⟩ := hall t ht
    have hqp : q = p := Option.some.inj (hq.symm.trans hpos)
    subst hqp
    exact hmem
  · intro hall t ht
    have hfound : r t.location ∈ ps.map some := h ▸ List.mem_map_of_mem ht
    obtain ⟨p, hp, hpos⟩ := List.mem_map.1 hfound
    exact ⟨p, hpos.symm, hall p hp⟩

/-- A span is the hull of tokens exactly if they are all found, its first end is where
    the first token is and the least position of all, and its last end is where the last
    token is and the greatest. -/
theorem isHull_iff_extremes :
    s.isHull r ts = true ↔ ∃ ps, SpelledAs r ts ps ∧
      (ps.head? = some s.first ∧ Position.least? ps = some s.first) ∧
      (ps.getLast? = some s.last ∧ Position.greatest? ps = some s.last) := by
  rw [isHull_iff]
  refine ⟨?_, ?_⟩
  · rintro ⟨hends, hall⟩
    obtain ⟨ps, hps⟩ := exists_spelledAs fun t ht => (hall t ht).imp fun _ hp => hp.1
    have hedge (e : Edge) : e.of? ps = some (s.edge e) := hps.edge_eq_some_iff.1 (hends e)
    have hmem (e : Edge) : s.edge e ∈ ps := Edge.mem_of_of? (hedge e)
    have hbounds := (holds_iff_of_spelledAs hps).1 hall
    refine ⟨ps, hps, ⟨hedge .first, ?_⟩, hedge .last, ?_⟩
    · exact Position.least?_eq_some_iff.2 ⟨hmem .first, fun p hp => (hbounds p hp).1⟩
    · exact Position.greatest?_eq_some_iff.2 ⟨hmem .last, fun p hp => (hbounds p hp).2⟩
  · rintro ⟨ps, hps, ⟨hhead, hleast⟩, hend, hgreatest⟩
    refine ⟨Edge.forall_iff.2 ⟨hps.edge_eq_some_iff.2 hhead, hps.edge_eq_some_iff.2 hend⟩, ?_⟩
    apply (holds_iff_of_spelledAs hps).2
    intro p hp
    exact ⟨(Position.least?_eq_some_iff.1 hleast).2 p hp,
      (Position.greatest?_eq_some_iff.1 hgreatest).2 p hp⟩

/-- The edge tokens of a list are found at the edges of its hull and nowhere else. -/
theorem edge_position_iff_of_isHull (h : s.isHull r ts = true) {e : Edge} {p : Position} :
    (∃ t, e.of? ts = some t ∧ r t.location = some p) ↔ p = s.edge e := by
  obtain ⟨t, ht, hpos⟩ := (isHull_iff.1 h).1 e
  simp [ht, hpos, eq_comm]

/-- A list of tokens has at most one hull. -/
theorem isHull_unique (hs : s.isHull r ts = true) (hu : u.isHull r ts = true) : s = u := by
  apply eq_of_edge_eq
  intro e
  exact (edge_position_iff_of_isHull hu).1 ((isHull_iff.1 hs).1 e)

/-- The last token is spelled inside the hull, so the ends of a hull are in order. -/
theorem first_le_last_of_isHull (h : s.isHull r ts = true) : s.first ≤ s.last := by
  obtain ⟨ps, -, ⟨-, hleast⟩, hend, -⟩ := isHull_iff_extremes.1 h
  exact (Position.least?_eq_some_iff.1 hleast).2 _ (List.mem_of_getLast? hend)

end Span

/-! ## Verdicts -/

theorem ne_nil_of_spelledFrom (hn : spelledFrom r ts n = true) : ts ≠ [] := by
  rintro rfl
  rw [spelledFrom_nil] at hn
  cases hn

theorem spelledFrom_iff_isHull (hspan : n.span? r = some s) :
    spelledFrom r ts n = true ↔ s.isHull r ts = true := by
  rw [spelledFrom, hspan, Option.any_some]

/-- If the tokens have a hull, the nodes spelled from them are those that have it for a
    span. -/
theorem spelledFrom_iff_span?_eq (h : s.isHull r ts = true) :
    spelledFrom r ts n = true ↔ n.span? r = some s := by
  rw [spelledFrom_iff]
  refine ⟨?_, ?_⟩
  · rintro ⟨u, hspan, hhull⟩
    rw [hspan, Span.isHull_unique hhull h]
  · intro hspan
    exact ⟨s, hspan, h⟩

/-- A node is spelled from a list of tokens exactly if the list is not empty, all of the
    tokens and both ends of the node are found, the node begins at the position of the
    first token, which is the least position of a token, and ends at the position of the
    last token, which is the greatest. So either no node at all is spelled from the
    tokens, or there is one span with its ends in order such that the nodes spelled from
    the tokens are those with this span. -/
theorem spelled_nodes_have_hull (r : Resolver) (ts : List Token) :
    (∀ n, spelledFrom r ts n = true ↔
      ts ≠ [] ∧ ∃ ps, SpelledAs r ts ps ∧
        ∃ p q, r n.extent.first = some p ∧ r n.extent.last = some q ∧
          (ps.head? = some p ∧ Position.least? ps = some p) ∧
          (ps.getLast? = some q ∧ Position.greatest? ps = some q)) ∧
    ((∀ n, spelledFrom r ts n = false) ∨
      ∃ s, s.first ≤ s.last ∧ ∀ n, spelledFrom r ts n = true ↔ n.span? r = some s) := by
  refine ⟨?_, ?_⟩
  · intro n
    constructor
    · intro hn
      obtain ⟨s, hspan, hhull⟩ := spelledFrom_iff.1 hn
      obtain ⟨hfirst, hlast⟩ := Extent.span?_eq_some_iff.1 hspan
      obtain ⟨ps, hps, hleast, hgreatest⟩ := Span.isHull_iff_extremes.1 hhull
      exact ⟨ne_nil_of_spelledFrom hn, ps, hps, s.first, s.last, hfirst, hlast, hleast, hgreatest⟩
    · rintro ⟨-, ps, hps, p, q, hfirst, hlast, hleast, hgreatest⟩
      have hspan : n.span? r = some ⟨p, q⟩ := Extent.span?_eq_some_iff.2 ⟨hfirst, hlast⟩
      rw [spelledFrom_iff_isHull hspan]
      exact Span.isHull_iff_extremes.2 ⟨ps, hps, hleast, hgreatest⟩
  · by_cases hex : ∃ s : Span, s.isHull r ts = true
    · obtain ⟨s, hs⟩ := hex
      exact .inr ⟨s, Span.first_le_last_of_isHull hs, fun n => spelledFrom_iff_span?_eq hs⟩
    · refine .inl fun n => ?_
      rw [Bool.eq_false_iff]
      intro hn
      obtain ⟨s, -, hhull⟩ := spelledFrom_iff.1 hn
      exact hex ⟨s, hhull⟩

end MacroSpan
