/-
  MacroSpan.Proofs.Failure

  Why a location does not resolve. Resolution answers `none` in three situations
  that it does not tell apart: the chain comes to the invalid location, it ends
  at a number that is not registered, or it runs in a circle and uses up the looks
  that are allowed.

  Every failure has exactly one of these causes, and the cause decides whether
  the failure is final. Registration cannot bring back a chain that is invalid or
  cyclic, whereas a dangling one can be completed to any position.
-/

import Mathlib.Logic.ExistsUnique
import MacroSpan.Proofs.Resolution

namespace MacroSpan

/-- Why a location does not resolve. -/
inductive Failure where
  /-- The chain comes to the invalid location. -/
  | invalid
  /-- The chain ends at a number that is not registered. -/
  | dangling
  /-- The chain comes to some entry twice. -/
  | cyclic
deriving DecidableEq, Repr

/-- The cause that the end of a chain shows; a position shows none. -/
def Failure.ofEnd? : Location → Option Failure
  | .invalid => some .invalid
  | .expanded _ => some .dangling
  | .file _ => none

namespace ExpansionTable

/-- The chain from `l` fails for the given cause. -/
def FailsBy (t : ExpansionTable) (c : Coordinate) (l : Location) : Failure → Prop
  | .invalid => t.Reaches c l .invalid
  | .dangling => ∃ k, t.DanglesAt c l k
  | .cyclic => t.Revisits c l

variable {t u : ExpansionTable} {c : Coordinate} {l : Location} {f g : Failure}

/-! ## One cause -/

/-- A chain with an end fails for the cause that its end shows. -/
theorem FailsBy.ofEnd?_eq {m : Location} (hf : t.FailsBy c l f) (hm : t.Reaches c l m)
    (hend : t.IsEnd m) : Failure.ofEnd? m = some f := by
  cases f with
  | invalid =>
    have hmi : m = .invalid := hm.end_unique hend hf (isEnd_invalid t)
    rw [hmi]
    rfl
  | dangling =>
    obtain ⟨k, hk⟩ := hf
    have hmk : m = .expanded k := hm.end_unique hend hk.1 hk.2
    rw [hmk]
    rfl
  | cyclic => exact absurd hend (Revisits.not_reaches_end hf hm)

/-- A chain that comes to some entry twice fails for no other cause. -/
theorem FailsBy.eq_cyclic (hf : t.FailsBy c l f) (hl : t.Revisits c l) : f = .cyclic := by
  cases f with
  | invalid => exact absurd (isEnd_invalid t) (hl.not_reaches_end hf)
  | dangling =>
    obtain ⟨k, hk⟩ := hf
    exact absurd hk.2 (hl.not_reaches_end hk.1)
  | cyclic => rfl

/-- There is at most one cause. -/
theorem FailsBy.unique (hf : t.FailsBy c l f) (hg : t.FailsBy c l g) : f = g := by
  rcases exists_end_or_revisits t c l with ⟨m, hm, hend⟩ | hrev
  · have hmf := hf.ofEnd?_eq hm hend
    rw [hg.ofEnd?_eq hm hend, Option.some.injEq] at hmf
    exact hmf.symm
  · rw [hf.eq_cyclic hrev, hg.eq_cyclic hrev]

/-- There is always a cause. -/
theorem exists_failsBy (h : t.resolve c l = none) : ∃ f, t.FailsBy c l f := by
  rcases exists_end_or_revisits t c l with ⟨m, hm, hend⟩ | hrev
  · -- A position is the only end that is no failure.
    cases m with
    | invalid => exact ⟨.invalid, hm⟩
    | file p => exact absurd hm (resolve_eq_none_iff.1 h p)
    | expanded k => exact ⟨.dangling, k, hm, hend⟩
  · exact ⟨.cyclic, hrev⟩

theorem FailsBy.resolve_eq_none (hf : t.FailsBy c l f) : t.resolve c l = none := by
  rw [resolve_eq_none_iff]
  intro p hp
  -- An end at a position would show no cause.
  have hnone := hf.ofEnd?_eq hp (isEnd_file t p)
  simp [Failure.ofEnd?] at hnone

/-! ## Finality -/

/-- Every cause but one is there for good. -/
theorem FailsBy.growsTo (hf : t.FailsBy c l f) (hne : f ≠ .dangling) (h : t.GrowsTo u) :
    u.FailsBy c l f := by
  cases f with
  | invalid => exact Reaches.growsTo hf h
  | dangling => exact absurd rfl hne
  | cyclic => exact Revisits.growsTo hf h

/-- Growth matters only to a chain that dangles. -/
theorem GrowsTo.resolve_eq (h : t.GrowsTo u) (hl : ∀ k, ¬ t.DanglesAt c l k) :
    u.resolve c l = t.resolve c l := by
  cases hres : t.resolve c l with
  | some p => exact h.resolve_eq_some hres
  | none =>
    obtain ⟨f, hf⟩ := exists_failsBy hres
    have hne : f ≠ .dangling := by
      rintro rfl
      obtain ⟨k, hk⟩ := hf
      exact hl k hk
    exact (hf.growsTo hne h).resolve_eq_none

/-- Entries for all numbers from the first unregistered one up to `k`, each of
    them at `p` in both coordinates. -/
def fill (t : ExpansionTable) (k : Nat) (p : Position) : List Entry :=
  List.replicate (k + 1 - t.size) ⟨.file p, .file p⟩

theorem hop?_extend_fill {k : Nat} (h : t.size ≤ k) (p : Position) :
    (t.extend (t.fill k p)).hop? c k = some (.file p) := by
  have hlt : k - t.size < k + 1 - t.size := by omega
  have halong : (Entry.mk (.file p) (.file p)).along c = .file p := by cases c <;> rfl
  rw [hop?, entries_extend, Array.getElem?_append_right h]
  show (((t.fill k p).toArray)[k - t.size]?).map _ = _
  simp [fill, hlt, halong]

/-- A chain that dangled is completed by filling the table up to its end. -/
theorem DanglesAt.resolve_extend_fill {k : Nat} (h : t.DanglesAt c l k) (p : Position) :
    (t.extend (t.fill k p)).resolve c l = some p := by
  rw [resolve_eq_some_iff]
  -- The old chain is still there, and one more hop leads from its end to `p`.
  have hk := h.1.growsTo (growsTo_extend t (t.fill k p))
  exact hk.trans (.hop (hop?_extend_fill h.2 p) (.refl _))

/-- A location that does not resolve fails for exactly one cause. If the cause is
    the invalid location or a circle, no sequence of registrations makes the
    location resolve; if it is a number that is not registered, some sequence
    makes it resolve to any position one likes. -/
theorem failure_cause_decides_finality (t : ExpansionTable) (c : Coordinate) (l : Location)
    (h : t.resolve c l = none) :
    (∃! f, t.FailsBy c l f) ∧
    (t.FailsBy c l .invalid ∨ t.FailsBy c l .cyclic →
      ∀ es, (t.extend es).resolve c l = none) ∧
    (t.FailsBy c l .dangling → ∀ p, ∃ es, (t.extend es).resolve c l = some p) := by
  refine ⟨?_, ?_, ?_⟩
  · obtain ⟨f, hf⟩ := exists_failsBy h
    exact ⟨f, hf, fun g hg => hg.unique hf⟩
  · intro hfinal es
    rcases hfinal with hinv | hcyc
    · exact (hinv.growsTo (by decide) (growsTo_extend t es)).resolve_eq_none
    · exact (hcyc.growsTo (by decide) (growsTo_extend t es)).resolve_eq_none
  · intro hdangling p
    obtain ⟨k, hk⟩ := hdangling
    exact ⟨t.fill k p, hk.resolve_extend_fill p⟩

/-- In this table the expansion chain from entry 1 leaves the table and the
    spelling chain from entry 0 is a circle. -/
theorem dangling_completed_cyclic_final :
    let t := ofList [⟨.expanded 1, .invalid⟩, ⟨.expanded 0, .expanded 7⟩]
    (t.resolve .expansion (.expanded 1) = none ∧
      ∃ es, (t.extend es).resolve .expansion (.expanded 1) = some ⟨⟨3⟩, 5⟩) ∧
    (t.resolve .spelling (.expanded 0) = none ∧
      ∀ es, (t.extend es).resolve .spelling (.expanded 0) = none) := by
  intro t
  have hdangling : t.FailsBy .expansion (.expanded 1) .dangling :=
    ⟨7, .hop rfl (.refl _), by decide⟩
  have hcyclic : t.FailsBy .spelling (.expanded 0) .cyclic :=
    ⟨0, .expanded 1, .refl _, rfl, .hop rfl (.refl _)⟩
  refine ⟨⟨rfl, ?_⟩, rfl, ?_⟩
  · exact (failure_cause_decides_finality t .expansion (.expanded 1) rfl).2.2 hdangling _
  · exact (failure_cause_decides_finality t .spelling (.expanded 0) rfl).2.1 (.inr hcyclic)

end ExpansionTable

end MacroSpan
