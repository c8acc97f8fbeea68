/-
  MacroSpan.Proofs.Concatenation

  Hulls of concatenated token lists. If each of a sequence of lists has a hull, the
  concatenation has one exactly if the first list begins before all others begin and the
  last ends after all others end; it then reaches from the beginning of the first to the
  end of the last. In between the lists may come in any order, overlap, or lie in other
  buffers.

  The argument has two parts. The ends of the concatenation are those of the first and
  the last list, because none of them is empty. And whether a span holds all tokens of a
  list depends on the hull of the list only (`Span.holds_iff_of_isHull`), so it can be
  asked of one list after the other.
-/

import Mathlib.Data.List.Basic
import MacroSpan.ExpansionTable
import MacroSpan.Proofs.Hull

namespace MacroSpan

/-- A list of tokens with a span, as a piece of a longer list. -/
structure Segment where
  tokens : List Token
  span : Span
deriving DecidableEq, Repr

/-- Some node with the span of the segment is spelled from its tokens. -/
def Segment.Spelled (r : Resolver) (g : Segment) : Prop :=
  ∃ n, n.span? r = some g.span ∧ spelledFrom r g.tokens n = true

variable {r : Resolver} {ts : List Token} {p : Position} {s u : Span} {g : Segment}
  {segments : List Segment}

/-! ## A span and the hull of a list -/

namespace Span

/-- A span holds all tokens of a list exactly if it reaches beyond both ends of their
    hull: the two ends are themselves positions of tokens. -/
theorem holds_iff_of_isHull (h : u.isHull r ts = true) :
    s.Holds r ts ↔ s.first ≤ u.first ∧ u.last ≤ s.last := by
  obtain ⟨ps, hps, ⟨-, hleast⟩, -, hgreatest⟩ := isHull_iff_extremes.1 h
  obtain ⟨hfirst, hlower⟩ := Position.least?_eq_some_iff.1 hleast
  obtain ⟨hlast, hupper⟩ := Position.greatest?_eq_some_iff.1 hgreatest
  rw [holds_iff_of_spelledAs hps]
  refine ⟨?_, ?_⟩
  · intro hall
    exact ⟨(hall _ hfirst).1, (hall _ hlast).2⟩
  · rintro ⟨hbefore, hafter⟩ p hp
    exact ⟨Position.le_trans hbefore (hlower p hp), Position.le_trans (hupper p hp) hafter⟩

theorem holds_flatMap_tokens :
    s.Holds r (segments.flatMap Segment.tokens) ↔ ∀ g ∈ segments, s.Holds r g.tokens :=
  List.forall_mem_flatMap

end Span

/-! ## The ends of a concatenation -/

namespace Segment

theorem Spelled.isHull (h : g.Spelled r) : g.span.isHull r g.tokens = true := by
  obtain ⟨n, hspan, hn⟩ := h
  exact (spelledFrom_iff_isHull hspan).1 hn

theorem Spelled.ne_nil (h : g.Spelled r) : g.tokens ≠ [] := by
  obtain ⟨n, -, hn⟩ := h
  exact ne_nil_of_spelledFrom hn

/-- A concatenation has the edges of its outer segments, if these are not empty. -/
theorem of?_flatMap_tokens {e : Edge} (hg : e.of? segments = some g) (hne : g.tokens ≠ []) :
    e.of? (segments.flatMap tokens) = e.of? g.tokens := by
  cases e with
  | first =>
    obtain ⟨rest, rfl⟩ := List.head?_eq_some_iff.1 hg
    rw [List.flatMap_cons]
    exact List.head?_append_of_ne_nil _ hne
  | last =>
    obtain ⟨rest, rfl⟩ := List.getLast?_eq_some_iff.1 hg
    rw [List.flatMap_append, List.flatMap_singleton]
    exact List.getLast?_append_of_ne_nil _ hne

/-- The token at an edge of a concatenation is found at the edge of the outer segment. -/
theorem edge_position_flatMap_iff {e : Edge} (hg : e.of? segments = some g)
    (hspelled : g.Spelled r) :
    (∃ t, e.of? (segments.flatMap tokens) = some t ∧ r t.location = some p) ↔
      p = g.span.edge e := by
  rw [of?_flatMap_tokens hg hspelled.ne_nil]
  exact Span.edge_position_iff_of_isHull hspelled.isHull

end Segment

/-! ## Hulls of concatenations -/

/-- What a span must be to be the hull of a concatenation, as the check of the tokens
    puts it: all segments inside. -/
theorem Span.isHull_flatMap_iff (hne : segments ≠ []) (hspelled : ∀ g ∈ segments, g.Spelled r) :
    s.isHull r (segments.flatMap Segment.tokens) = true ↔
      s.first = (segments.head hne).span.first ∧ s.last = (segments.getLast hne).span.last ∧
        ∀ g ∈ segments, s.first ≤ g.span.first ∧ g.span.last ≤ s.last := by
  have hhead := hspelled _ (List.head_mem hne)
  have hlast := hspelled _ (List.getLast_mem hne)
  have hholds : s.Holds r (segments.flatMap Segment.tokens) ↔
      ∀ g ∈ segments, s.first ≤ g.span.first ∧ g.span.last ≤ s.last := by
    rw [holds_flatMap_tokens]
    exact forall₂_congr fun g hg => holds_iff_of_isHull (hspelled g hg).isHull
  have hfirst := Segment.edge_position_flatMap_iff (p := s.first) (e := .first)
    (List.head?_eq_some_head hne) hhead
  have hend := Segment.edge_position_flatMap_iff (p := s.last) (e := .last)
    (List.getLast?_eq_some_getLast hne) hlast
  rw [isHull_iff, Edge.forall_iff, and_assoc]
  exact and_congr hfirst (and_congr hend hholds)

/-- Spans compose by concatenation. Let each of a non-empty sequence of segments be
    spelled over its span. A node with the span `s` is spelled from all of the tokens,
    one segment after the other, exactly if `s` begins where the first segment begins and
    ends where the last one ends, no segment begins before the first and none ends after
    the last. -/
theorem concatenation_spelled_from_outer_segments (r : Resolver) (segments : List Segment)
    (hne : segments ≠ []) (hspelled : ∀ g ∈ segments, g.Spelled r) (n : Node) (s : Span)
    (hn : n.span? r = some s) :
    spelledFrom r (segments.flatMap Segment.tokens) n = true ↔
      s.first = (segments.head hne).span.first ∧ s.last = (segments.getLast hne).span.last ∧
        ∀ g ∈ segments, (segments.head hne).span.first ≤ g.span.first ∧
          g.span.last ≤ (segments.getLast hne).span.last := by
  rw [spelledFrom_iff_isHull hn, Span.isHull_flatMap_iff hne hspelled]
  -- Once both ends of `s` are known, the bounds on the segments are the same.
  constructor
  · rintro ⟨hfirst, hlast, hall⟩
    rw [hfirst, hlast] at hall
    exact ⟨hfirst, hlast, hall⟩
  · rintro ⟨hfirst, hlast, hall⟩
    rw [← hfirst, ← hlast] at hall
    exact ⟨hfirst, hlast, hall⟩

/-- The second segment lies in another buffer, the third begins inside the first and ends
    after the second: together they are spelled over the span from the first to the third.
    With the last two exchanged they have no hull, since the one now in the middle ends
    after the last. -/
theorem interleaved_segments_compose :
    let r := (ExpansionTable.ofList [⟨.file ⟨⟨1⟩, 2⟩, .invalid⟩]).spelling
    let a : Segment := ⟨[⟨.file ⟨⟨0⟩, 5⟩⟩, ⟨.file ⟨⟨0⟩, 9⟩⟩], ⟨⟨⟨0⟩, 5⟩, ⟨⟨0⟩, 9⟩⟩⟩
    let b : Segment := ⟨[⟨.expanded 0⟩, ⟨.file ⟨⟨1⟩, 3⟩⟩], ⟨⟨⟨1⟩, 2⟩, ⟨⟨1⟩, 3⟩⟩⟩
    let c : Segment := ⟨[⟨.file ⟨⟨0⟩, 7⟩⟩, ⟨.file ⟨⟨1⟩, 8⟩⟩], ⟨⟨⟨0⟩, 7⟩, ⟨⟨1⟩, 8⟩⟩⟩
    let whole : Node := ⟨.statement, ⟨.file ⟨⟨0⟩, 5⟩, .file ⟨⟨1⟩, 8⟩⟩⟩
    let short : Node := ⟨.statement, ⟨.file ⟨⟨0⟩, 5⟩, .file ⟨⟨1⟩, 3⟩⟩⟩
    (∀ g ∈ [a, b, c], g.Spelled r) ∧
      spelledFrom r ([a, b, c].flatMap Segment.tokens) whole = true ∧
      spelledFrom r ([a, c, b].flatMap Segment.tokens) short = false := by
  intro r a b c whole short
  have ha : a.Spelled r := ⟨⟨.statement, ⟨.file ⟨⟨0⟩, 5⟩, .file ⟨⟨0⟩, 9⟩⟩⟩, by decide, by decide⟩
  have hb : b.Spelled r := ⟨⟨.statement, ⟨.expanded 0, .file ⟨⟨1⟩, 3⟩⟩⟩, by decide, by decide⟩
  have hc : c.Spelled r := ⟨⟨.statement, ⟨.file ⟨⟨0⟩, 7⟩, .file ⟨⟨1⟩, 8⟩⟩⟩, by decide, by decide⟩
  have habc : ∀ g ∈ [a, b, c], g.Spelled r := by simp [ha, hb, hc]
  have hacb : ∀ g ∈ [a, c, b], g.Spelled r := by simp [ha, hb, hc]
  refine ⟨habc, ?_, ?_⟩
  · have hwhole := concatenation_spelled_from_outer_segments r [a, b, c] (by decide) habc whole
      ⟨⟨⟨0⟩, 5⟩, ⟨⟨1⟩, 8⟩⟩ (by decide)
    exact hwhole.2 (by decide)
  · have hshort := concatenation_spelled_from_outer_segments r [a, c, b] (by decide) hacb short
      ⟨⟨⟨0⟩, 5⟩, ⟨⟨1⟩, 3⟩⟩ (by decide)
    rw [Bool.eq_false_iff]
    intro h
    exact absurd (hshort.1 h) (by decide)

end MacroSpan
