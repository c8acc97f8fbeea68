/-
  MacroSpan.Proofs.Renumbering

  Tables that hold the same entries under other numbers. `Renumbers ρ t u` says
  that entry `i` of `t` is found in `u` under the number `ρ i`, with the numbers
  inside it changed in the same way, and that a number missing in `t` goes to one
  missing in `u`. Nothing else is asked: `ρ` may send two entries to one, and `u`
  may hold entries that come from nowhere, so neither table bounds the size of the
  other and resolution in the two has different numbers of looks to spend.

  With equal numbers of looks the two walks go hand in hand
  (`Renumbers.resolveWithin`), and how many there are does not matter in the end,
  so the tables answer alike. Reordered registration is a special case.
-/

import Mathlib.Data.Finset.Card
import Mathlib.Logic.Equiv.Basic
import MacroSpan.Relocation
import MacroSpan.Proofs.Resolution

namespace MacroSpan

/-- The entry with both of its locations replaced. -/
def Entry.relocate (f : Location → Location) (e : Entry) : Entry := ⟨f e.spelling, f e.expansion⟩

theorem Entry.along_relocate (f : Location → Location) (e : Entry) (c : Coordinate) :
    (e.relocate f).along c = f (e.along c) := by
  cases c <;> rfl

namespace ExpansionTable

/-- The numbering `ρ` carries the table `t` into the table `u`. -/
structure Renumbers (ρ : Nat → Nat) (t u : ExpansionTable) : Prop where
  /-- Entry `i` is registered under `ρ i`, its locations renumbered. -/
  entry : ∀ i e, t.entries[i]? = some e → u.entries[ρ i]? = some (e.relocate (Location.renumber ρ))
  /-- A number that is not registered stays so. -/
  missing : ∀ i, t.size ≤ i → u.size ≤ ρ i

/-- Registering `fs` is registering `es` in another order: entry `i` comes at place
    `ρ i`, and the numbers inside the entries are changed accordingly. -/
structure Reorders (ρ : Nat → Nat) (es fs : List Entry) : Prop where
  injective : Function.Injective ρ
  length_eq : fs.length = es.length
  entry : ∀ i e, es[i]? = some e → fs[ρ i]? = some (e.relocate (Location.renumber ρ))

/-- Renumbered syntax gets from `u` what the syntax itself gets from `t`: the same
    position in either coordinate and the same verdicts. -/
structure AnswersAlike (ρ : Nat → Nat) (t u : ExpansionTable) : Prop where
  spelling : ∀ l, u.spelling (l.renumber ρ) = t.spelling l
  expansion : ∀ l, u.expansion (l.renumber ρ) = t.expansion l
  aligns : ∀ x n, MacroSpan.aligns u.spelling (x.relocate (Location.renumber ρ))
    (n.relocate (Location.renumber ρ)) = MacroSpan.aligns t.spelling x n
  spelledFrom : ∀ ts n, MacroSpan.spelledFrom u.spelling
    (ts.map (Token.relocate (Location.renumber ρ))) (n.relocate (Location.renumber ρ)) =
      MacroSpan.spelledFrom t.spelling ts n

variable {ρ : Nat → Nat} {t u : ExpansionTable} {c : Coordinate} {es fs : List Entry}

/-! ## Hand in hand -/

/-- Corresponding numbers have corresponding hops, or none. -/
theorem Renumbers.hop? (h : Renumbers ρ t u) (c : Coordinate) (i : Nat) :
    u.hop? c (ρ i) = (t.hop? c i).map (Location.renumber ρ) := by
  cases he : t.entries[i]? with
  | none =>
    have hi : t.size ≤ i := Array.getElem?_eq_none_iff.1 he
    rw [hop?_eq_none_iff.2 hi, hop?_eq_none_iff.2 (h.missing i hi)]
    rfl
  | some e =>
    rw [ExpansionTable.hop?, ExpansionTable.hop?, h.entry i e he, he]
    simp only [Option.map_some, Entry.along_relocate]

/-- With equal numbers of looks, resolution finds the same in both tables. -/
theorem Renumbers.resolveWithin (h : Renumbers ρ t u) (c : Coordinate) (n : Nat) (l : Location) :
    u.resolveWithin c n (l.renumber ρ) = t.resolveWithin c n l := by
  induction n generalizing l with
  | zero => rfl
  | succ n ih =>
    cases l with
    | invalid => rfl
    | file p => rfl
    | expanded i =>
      show u.resolveWithin c (n + 1) (.expanded (ρ i)) = t.resolveWithin c (n + 1) (.expanded i)
      rw [resolveWithin_expanded, resolveWithin_expanded, h.hop?]
      -- Both walks are stopped, or both go on from corresponding locations.
      cases t.hop? c i with
      | none => rfl
      | some m => exact ih m

/-- Without a limit on the looks the answers are the same as well. -/
theorem Renumbers.resolve (h : Renumbers ρ t u) (c : Coordinate) (l : Location) :
    u.resolve c (l.renumber ρ) = t.resolve c l := by
  apply Option.ext
  intro p
  -- The tables allow different numbers of looks, so compare what any number finds.
  rw [resolve_eq_some_iff_exists, resolve_eq_some_iff_exists]
  simp only [h.resolveWithin]

/-- And so are the verdicts, which see locations only through their resolution. -/
theorem Renumbers.answersAlike (h : Renumbers ρ t u) : AnswersAlike ρ t u := by
  have hcomp : u.spelling ∘ Location.renumber ρ = t.spelling := funext (h.resolve .spelling)
  refine ⟨h.resolve .spelling, h.resolve .expansion, ?_, ?_⟩
  · intro x n
    rw [aligns_relocate, hcomp]
  · intro ts n
    rw [spelledFrom_relocate, hcomp]

/-! ## Another order of registration -/

theorem Reorders.lt_length (h : Reorders ρ es fs) {i : Nat} (hi : i < es.length) :
    ρ i < es.length := by
  have hentry := h.entry i es[i] (List.getElem?_eq_getElem hi)
  rw [← h.length_eq]
  exact (List.getElem?_eq_some_iff.1 hentry).1

/-- The places of the entries fill the table, so no other number goes to one of them. -/
theorem Reorders.length_le (h : Reorders ρ es fs) {i : Nat} (hi : es.length ≤ i) :
    es.length ≤ ρ i := by
  by_contra hlt
  -- Otherwise `ρ i` is the place of some entry `j` as well, and `ρ` is injective.
  have hmaps : Set.MapsTo ρ (Finset.range es.length) (Finset.range es.length) := by
    intro j hj
    rw [Finset.mem_coe, Finset.mem_range] at hj ⊢
    exact h.lt_length hj
  have hplace : ρ i ∈ (Finset.range es.length : Set Nat) := by
    rw [Finset.mem_coe, Finset.mem_range]
    omega
  obtain ⟨j, hj, hji⟩ :=
    Finset.surjOn_of_injOn_of_card_le ρ hmaps h.injective.injOn (Nat.le_refl _) hplace
  have hij : j = i := h.injective hji
  rw [Finset.mem_coe, Finset.mem_range] at hj
  omega

theorem Reorders.renumbers (h : Reorders ρ es fs) : Renumbers ρ (ofList es) (ofList fs) where
  entry := by
    intro i e he
    rw [entries_ofList, List.getElem?_toArray] at he ⊢
    exact h.entry i e he
  missing := by
    intro i hi
    rw [size_ofList] at hi ⊢
    rw [h.length_eq]
    exact h.length_le hi

/-- Numbers and order of the entries do not matter. Tables of any sizes answer
    alike, up to renumbering, if the numbering carries one into the other; and so do
    the tables made by registering the same entries in two orders. -/
theorem numbering_leaves_answers (ρ : Nat → Nat) :
    (∀ t u, Renumbers ρ t u → AnswersAlike ρ t u) ∧
    (∀ es fs, Reorders ρ es fs → AnswersAlike ρ (ofList es) (ofList fs)) := by
  constructor
  · intro t u h
    exact h.answersAlike
  · intro es fs h
    exact h.renumbers.answersAlike

/-- A circle of two entries answers like a circle of one, and exchanging two
    entries of which the second leads to the first changes nothing. -/
theorem circle_shrinks_and_entries_swap :
    AnswersAlike (fun i => i - 1)
      (ofList [⟨.expanded 1, .file ⟨⟨4⟩, 2⟩⟩, ⟨.expanded 0, .file ⟨⟨4⟩, 2⟩⟩])
      (ofList [⟨.expanded 0, .file ⟨⟨4⟩, 2⟩⟩]) ∧
    AnswersAlike (Equiv.swap 0 1)
      (ofList [⟨.file ⟨⟨1⟩, 5⟩, .expanded 7⟩, ⟨.expanded 0, .expanded 1⟩])
      (ofList [⟨.expanded 1, .expanded 0⟩, ⟨.file ⟨⟨1⟩, 5⟩, .expanded 7⟩]) := by
  constructor
  · refine (numbering_leaves_answers _).1 _ _ ⟨?_, ?_⟩
    · intro i e he
      rcases i with _ | _ | i
      · cases he; rfl
      · cases he; rfl
      · cases he
    · intro i hi
      have hi' : 2 ≤ i := hi
      show 1 ≤ i - 1
      omega
  · refine (numbering_leaves_answers _).2 _ _ ⟨(Equiv.swap 0 1).injective, rfl, ?_⟩
    intro i e he
    rcases i with _ | _ | i
    · cases he; rfl
    · cases he; rfl
    · cases he

end ExpansionTable

end MacroSpan
