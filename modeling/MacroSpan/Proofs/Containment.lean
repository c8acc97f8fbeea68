/-
  MacroSpan.Proofs.Containment

  Spans and the positions in them. Positions lie one after the other in a single
  address space, so a span is an interval there, and it makes no difference whether
  it stays inside one buffer or reaches over many.

  A span with its ends in order has both of them as members and is therefore fixed by
  its members: it lies in another span as soon as its ends do (`forall_mem_iff_ends`),
  and no other span has the same members (`forall_mem_iff_iff_eq`). Empty spans are
  different. They are those with their ends the wrong way round (`exists_mem_iff`),
  and all of them have the same members, namely none.
-/

import MacroSpan.Position

namespace MacroSpan

namespace Span

variable {r s : Span} {p : Position}

/-! ## Empty spans -/

/-- A span has members exactly if its ends are in order. -/
theorem exists_mem_iff : (∃ p, p ∈ s) ↔ s.first ≤ s.last := by
  refine ⟨?_, ?_⟩
  · rintro ⟨p, hfirst, hlast⟩
    exact Position.le_trans hfirst hlast
  · intro h
    exact ⟨s.edge .first, edge_mem_iff.2 h⟩

theorem not_mem_of_last_lt_first (h : s.last < s.first) : p ∉ s := by
  intro hp
  have hle : s.first ≤ s.last := exists_mem_iff.1 ⟨p, hp⟩
  exact Position.not_le.2 h hle

/-! ## Spans inside spans -/

/-- A span that holds both ends of another holds all of it. -/
theorem mem_of_ends_mem (hfirst : s.first ∈ r) (hlast : s.last ∈ r) (hp : p ∈ s) : p ∈ r := by
  refine ⟨?_, ?_⟩
  · exact Position.le_trans hfirst.1 hp.1
  · exact Position.le_trans hp.2 hlast.2

theorem forall_mem_iff_ends (h : s.first ≤ s.last) :
    (∀ p, p ∈ s → p ∈ r) ↔ s.first ∈ r ∧ s.last ∈ r := by
  refine ⟨?_, ?_⟩
  · intro hall
    exact ⟨hall (s.edge .first) (edge_mem_iff.2 h), hall (s.edge .last) (edge_mem_iff.2 h)⟩
  · rintro ⟨hfirst, hlast⟩ p hp
    exact mem_of_ends_mem hfirst hlast hp

/-- Spans that hold each other's ends are equal. -/
theorem eq_of_ends_mem (hr : r.first ∈ s ∧ r.last ∈ s) (hs : s.first ∈ r ∧ s.last ∈ r) :
    r = s := by
  apply eq_of_edge_eq
  intro e
  cases e with
  | first => exact Position.le_antisymm hs.1.1 hr.1.1
  | last => exact Position.le_antisymm hr.2.2 hs.2.2

/-- A span that is not empty is the only one with its members. -/
theorem forall_mem_iff_iff_eq (h : ∃ p, p ∈ r) : (∀ p, p ∈ r ↔ p ∈ s) ↔ r = s := by
  refine ⟨?_, ?_⟩
  · intro hall
    obtain ⟨p, hp⟩ := h
    have hr : r.first ≤ r.last := exists_mem_iff.1 ⟨p, hp⟩
    have hs : s.first ≤ s.last := exists_mem_iff.1 ⟨p, (hall p).1 hp⟩
    exact eq_of_ends_mem ((forall_mem_iff_ends hr).1 fun q => (hall q).1)
      ((forall_mem_iff_ends hs).1 fun q => (hall q).2)
  · rintro rfl p
    exact Iff.rfl

end Span

/-! ## One address space -/

/-- Positions are ordered like their addresses, and equal if these are, so a span holds
    exactly the positions with an address in the interval between the addresses of its
    ends. A span with its ends in order lies in another exactly if both of its ends do;
    a span that holds some position is the only one that holds the same positions; and a
    span whose first end comes after its last holds none, in particular one whose first
    end is in a later buffer, however small its offset there. -/
theorem spans_determined_by_members_in_address_order :
    (∀ a b : Position, compare a b = compare a.address b.address ∧
      (a ≤ b ↔ a.address ≤ b.address) ∧ (a < b ↔ a.address < b.address) ∧
      (a = b ↔ a.address = b.address)) ∧
    (∀ (s : Span) (p : Position),
      p ∈ s ↔ s.first.address ≤ p.address ∧ p.address ≤ s.last.address) ∧
    (∀ r s : Span, s.first ≤ s.last →
      ((∀ p, p ∈ s → p ∈ r) ↔ s.first ∈ r ∧ s.last ∈ r)) ∧
    (∀ r s : Span, (∃ p, p ∈ r) → ((∀ p, p ∈ r ↔ p ∈ s) ↔ r = s)) ∧
    (∀ s : Span, s.last < s.first ∨ s.last.file.index < s.first.file.index →
      ∀ p, p ∉ s) := by
  refine ⟨?_, ?_, ?_, ?_, ?_⟩
  · intro a b
    exact ⟨Position.compare_eq_compare_address a b, Position.le_iff_address_le,
      Position.lt_iff_address_lt, Position.address_inj.symm⟩
  · intro s p
    exact Span.mem_iff_address
  · intro r s h
    exact Span.forall_mem_iff_ends h
  · intro r s h
    exact Span.forall_mem_iff_iff_eq h
  · intro s h p
    have hlt : s.last < s.first := by
      rcases h with h | h
      · exact h
      · exact Position.lt_of_file_lt h
    exact Span.not_mem_of_last_lt_first hlt

/-- The last position of one buffer and the first of the next make a span, which lies in
    any span that reaches over the two and is told from it by its members. The other way
    round they make an empty one, although the offsets are in order. -/
theorem span_over_end_of_buffer :
    let r : Span := ⟨⟨⟨0⟩, 5⟩, ⟨⟨1⟩, 9⟩⟩
    let s : Span := ⟨⟨⟨0⟩, 4294967295⟩, ⟨⟨1⟩, 0⟩⟩
    let e : Span := ⟨⟨⟨1⟩, 0⟩, ⟨⟨0⟩, 4294967295⟩⟩
    (s.first ≤ s.last ∧ ∀ p, p ∈ s → p ∈ r) ∧
    ((∃ p, p ∈ r) ∧ ¬ ∀ p, p ∈ r ↔ p ∈ s) ∧
    (e.last.file.index < e.first.file.index ∧ ∀ p, p ∉ e) := by
  intro r s e
  obtain ⟨-, -, hends, hmembers, hempty⟩ := spans_determined_by_members_in_address_order
  have horder : s.first ≤ s.last := by decide
  have hmem : ∃ p, p ∈ r := ⟨⟨⟨0⟩, 400⟩, by decide⟩
  have hfiles : e.last.file.index < e.first.file.index := by decide
  refine ⟨⟨horder, ?_⟩, ⟨hmem, ?_⟩, hfiles, ?_⟩
  · exact (hends r s horder).2 (by decide)
  · rw [hmembers r s hmem]
    decide
  · exact hempty e (.inr hfiles)

end MacroSpan
