/-
  MacroSpan.Proofs.Registration

  What one registration changes. The new entry takes the first number that was
  missing, so the chains that ended at that number go on through the new entry, and
  all other chains stay as they were: `AgreesFrom` holds between the table and the
  grown table from every location whose chain does not end there.

  A chain that goes on is now at what the new entry holds, and resolves to what that
  resolved to before. This is so even if the entry leads back to its own number. The
  registration then closes a circle, and where the old chain failed because the number
  was missing the new one fails because it never ends.
-/

import MacroSpan.Proofs.Failure
import MacroSpan.Proofs.Locality

namespace MacroSpan.ExpansionTable

variable {t : ExpansionTable} {c : Coordinate} {l : Location} {e : Entry}

theorem danglesAt_fresh (t : ExpansionTable) (c : Coordinate) : t.DanglesAt c t.fresh t.size :=
  ⟨.refl _, Nat.le_refl _⟩

theorem DanglesAt.resolve_eq_none {k : Nat} (h : t.DanglesAt c l k) : t.resolve c l = none := by
  have hfails : t.FailsBy c l .dangling := ⟨k, h⟩
  exact hfails.resolve_eq_none

/-! ## Chains that do not end at the new number -/

/-- Registration is not noticed by chains that do not end at the new number. -/
theorem agreesFrom_push (e : Entry) (h : ¬ t.DanglesAt c l t.size) :
    t.AgreesFrom (t.push e) c l := by
  intro i hi
  rcases Nat.lt_trichotomy i t.size with hlt | heq | hgt
  · exact (hop?_push_of_lt e hlt).symm
  · -- The chain would end at the very number that the new entry takes.
    subst heq
    exact absurd ⟨hi, Nat.le_refl _⟩ h
  · have hsize : (t.push e).size ≤ i := by
      rw [size_push]
      omega
    rw [hop?_eq_none_iff.2 (Nat.le_of_lt hgt), hop?_eq_none_iff.2 hsize]

theorem resolve_push_of_not_danglesAt (e : Entry) (h : ¬ t.DanglesAt c l t.size) :
    (t.push e).resolve c l = t.resolve c l :=
  (agreesFrom_push e h).resolve_eq.symm

/-! ## Chains that go on through the new entry -/

/-- Chains that do end there go on to what the new entry holds. -/
theorem DanglesAt.reaches_push (h : t.DanglesAt c l t.size) (e : Entry) :
    (t.push e).Reaches c l (e.along c) := by
  have hold : (t.push e).Reaches c l (.expanded t.size) := h.1.growsTo (growsTo_push t e)
  exact hold.trans (.hop (hop?_push_size t c e) (.refl _))

/-- An entry that leads to its own number is a circle. -/
theorem DanglesAt.revisits_push (h : t.DanglesAt c (e.along c) t.size) :
    (t.push e).Revisits c (e.along c) := by
  have hback : (t.push e).Reaches c (e.along c) (.expanded t.size) :=
    h.1.growsTo (growsTo_push t e)
  exact ⟨t.size, e.along c, hback, hop?_push_size t c e, hback⟩

/-- Registering an entry does not change what the entry itself resolves to. -/
theorem resolve_push_along (t : ExpansionTable) (c : Coordinate) (e : Entry) :
    (t.push e).resolve c (e.along c) = t.resolve c (e.along c) := by
  by_cases h : t.DanglesAt c (e.along c) t.size
  · have hcyclic : (t.push e).FailsBy c (e.along c) .cyclic := h.revisits_push
    rw [hcyclic.resolve_eq_none, h.resolve_eq_none]
  · exact resolve_push_of_not_danglesAt e h

/-- A chain that ended at the new number gets the answer of the new entry. -/
theorem DanglesAt.resolve_push (h : t.DanglesAt c l t.size) (e : Entry) :
    (t.push e).resolve c l = t.resolve c (e.along c) := by
  rw [(h.reaches_push e).resolve_eq, resolve_push_along]

/-- The effect of one registration on every answer. A location whose chain ended at the
    number that is handed out, the location handed out among them, resolves afterwards
    to what the new entry resolved to before. Every other location resolves to what it
    resolved to before. -/
theorem registration_changes_chains_ending_at_fresh (t : ExpansionTable) (e : Entry)
    (c : Coordinate) :
    t.fresh = .expanded t.size ∧ t.DanglesAt c t.fresh t.size ∧
    (t.push e).resolve c t.fresh = t.resolve c (e.along c) ∧
    (∀ l, t.DanglesAt c l t.size → (t.push e).resolve c l = t.resolve c (e.along c)) ∧
    (∀ l, ¬ t.DanglesAt c l t.size → (t.push e).resolve c l = t.resolve c l) := by
  refine ⟨rfl, danglesAt_fresh t c, (danglesAt_fresh t c).resolve_push e, ?_, ?_⟩
  · intro l h
    exact h.resolve_push e
  · intro l h
    exact resolve_push_of_not_danglesAt e h

/-- The new entry 2 completes the spellings of entries 0 and 1, which both waited for
    it, and closes a circle in the expansion of entry 1. The expansion of entry 0 waits
    for another number and is left alone. -/
theorem one_entry_completes_two_and_closes_circle :
    let t := ofList [⟨.expanded 2, .expanded 5⟩, ⟨.expanded 0, .expanded 2⟩]
    let e : Entry := ⟨.file ⟨⟨1⟩, 30⟩, .expanded 1⟩
    (t.DanglesAt .spelling (.expanded 1) t.size ∧
      (t.push e).resolve .spelling (.expanded 1) = t.resolve .spelling (.file ⟨⟨1⟩, 30⟩)) ∧
    (t.DanglesAt .expansion (.expanded 1) t.size ∧
      (t.push e).resolve .expansion (.expanded 1) = t.resolve .expansion (.expanded 1)) ∧
    (¬ t.DanglesAt .expansion (.expanded 0) t.size ∧
      (t.push e).resolve .expansion (.expanded 0) = t.resolve .expansion (.expanded 0)) := by
  intro t e
  have hspelling : t.DanglesAt .spelling (.expanded 1) t.size :=
    ⟨.hop rfl (.hop rfl (.refl _)), Nat.le_refl _⟩
  have hexpansion : t.DanglesAt .expansion (.expanded 1) t.size :=
    ⟨.hop rfl (.refl _), Nat.le_refl _⟩
  have helsewhere : ¬ t.DanglesAt .expansion (.expanded 0) t.size := by
    -- The chain ends at number 5, and it has only one end.
    intro h
    have hfive : t.Reaches .expansion (.expanded 0) (.expanded 5) := .hop rfl (.refl _)
    have hend : t.IsEnd (.expanded 5) := isEnd_expanded_iff.2 (by decide)
    have heq : Location.expanded t.size = .expanded 5 := h.1.end_unique h.2 hfive hend
    exact absurd heq (by decide)
  obtain ⟨-, -, -, hgoes, -⟩ := registration_changes_chains_ending_at_fresh t e .spelling
  obtain ⟨-, -, -, hgoes', hstays⟩ := registration_changes_chains_ending_at_fresh t e .expansion
  exact ⟨⟨hspelling, hgoes _ hspelling⟩, ⟨hexpansion, hgoes' _ hexpansion⟩, helsewhere,
    hstays _ helsewhere⟩

end MacroSpan.ExpansionTable
