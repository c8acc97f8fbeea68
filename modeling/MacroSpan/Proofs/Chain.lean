/-
  MacroSpan.Proofs.Chain

  Chains of locations, without any limit on their length. A chain replaces each
  registered location by what its entry holds for a coordinate; it ends at a
  position, at the invalid location or at a number that is not registered, or
  it goes on for ever.

  `exists_resolveWithin_iff` ties chains to resolution: a chain ends at a
  position exactly when some number of looks is enough to find it.

  A chain has at most one end (`Reaches.end_unique`), and none at all when it
  comes to some entry twice (`Revisits.not_reaches_end`). Conversely a chain
  without an end comes to some entry twice (`exists_end_or_revisits`): a `Trail`
  writes down the entries that a chain passes through, and a trail longer than
  the table repeats one of them.

  The same count bounds the trails that do end. They repeat nothing, so they are
  no longer than the table (`Trail.length_le_size`).
-/

import MacroSpan.ExpansionTable

namespace MacroSpan.ExpansionTable

/-- `t.Reaches c l m`: the chain that starts at `l` comes to `m`. -/
inductive Reaches (t : ExpansionTable) (c : Coordinate) : Location → Location → Prop where
  /-- A chain starts where it starts. -/
  | refl (l : Location) : Reaches t c l l
  /-- A registered location leads on to what its entry holds. -/
  | hop {i : Nat} {l m : Location} (h : t.hop? c i = some l) (hr : Reaches t c l m) :
      Reaches t c (.expanded i) m

/-- The chain from `l` ends at the number `i`, which is not registered. -/
def DanglesAt (t : ExpansionTable) (c : Coordinate) (l : Location) (i : Nat) : Prop :=
  t.Reaches c l (.expanded i) ∧ t.size ≤ i

/-- The chain from `l` comes to some registered entry twice. -/
def Revisits (t : ExpansionTable) (c : Coordinate) (l : Location) : Prop :=
  ∃ i m, t.Reaches c l (.expanded i) ∧ t.hop? c i = some m ∧ t.Reaches c m (.expanded i)

/-- Nothing comes after the location in a chain through the table. -/
def IsEnd (t : ExpansionTable) : Location → Prop
  | .expanded i => t.size ≤ i
  | .file _ | .invalid => True

/-- `t.Trail c l is m`: the chain that starts at `l` passes through the entries
    `is`, in this order, and comes to `m`. -/
inductive Trail (t : ExpansionTable) (c : Coordinate) : Location → List Nat → Location → Prop where
  /-- A chain that does not move passes through nothing. -/
  | nil (l : Location) : Trail t c l [] l
  /-- The entry that is hopped from comes before all later ones. -/
  | cons {i : Nat} {l m : Location} {is : List Nat} (h : t.hop? c i = some l)
      (htrail : Trail t c l is m) : Trail t c (.expanded i) (i :: is) m

variable {t : ExpansionTable} {c : Coordinate} {i : Nat} {l m : Location} {is : List Nat}

/-! ## Chains and looks -/

theorem Reaches.trans {k l m : Location} (hkl : t.Reaches c k l) (hlm : t.Reaches c l m) :
    t.Reaches c k m := by
  induction hkl with
  | refl => exact hlm
  | hop h _ ih => exact .hop h (ih hlm)

/-- A chain from a number stays there or goes on through the entry of that number. -/
theorem reaches_expanded_iff :
    t.Reaches c (.expanded i) m ↔
      m = .expanded i ∨ ∃ l, t.hop? c i = some l ∧ t.Reaches c l m := by
  refine ⟨fun h => ?_, fun h => ?_⟩
  · cases h with
    | refl => exact .inl rfl
    | hop h hr => exact .inr ⟨_, h, hr⟩
  · rcases h with rfl | ⟨l, h, hr⟩
    · exact .refl _
    · exact .hop h hr

/-- A position found within any number of looks is where the chain ends. -/
theorem reaches_of_resolveWithin {n : Nat} {l : Location} {p : Position}
    (h : t.resolveWithin c n l = some p) : t.Reaches c l (.file p) := by
  induction n generalizing l with
  | zero => simp at h
  | succ n ih =>
    cases l with
    | invalid => simp at h
    | file q =>
      rw [resolveWithin_file, Option.some.injEq] at h
      exact h ▸ .refl _
    | expanded i =>
      rw [resolveWithin_expanded, Option.bind_eq_some_iff] at h
      obtain ⟨m, hm, hp⟩ := h
      exact .hop hm (ih hp)

/-- A chain that ends at a position is found by as many looks as it is long. -/
theorem Reaches.exists_resolveWithin {l m : Location} {p : Position} (h : t.Reaches c l m)
    (hm : m = .file p) : ∃ n, t.resolveWithin c n l = some p := by
  induction h with
  | refl => exact ⟨1, by rw [hm, resolveWithin_file]⟩
  | hop h _ ih =>
    obtain ⟨n, hn⟩ := ih hm
    exact ⟨n + 1, by rw [resolveWithin_expanded, h, Option.bind_some, hn]⟩

/-- What any number of looks can find is what the chain comes to. -/
theorem exists_resolveWithin_iff {l : Location} {p : Position} :
    (∃ n, t.resolveWithin c n l = some p) ↔ t.Reaches c l (.file p) :=
  ⟨fun ⟨_, h⟩ => reaches_of_resolveWithin h, fun h => h.exists_resolveWithin rfl⟩

/-! ## Ends -/

@[simp] theorem isEnd_file (t : ExpansionTable) (p : Position) : t.IsEnd (.file p) := trivial

@[simp] theorem isEnd_invalid (t : ExpansionTable) : t.IsEnd .invalid := trivial

@[simp] theorem isEnd_expanded_iff : t.IsEnd (.expanded i) ↔ t.size ≤ i := Iff.rfl

theorem not_isEnd_of_hop (h : t.hop? c i = some l) : ¬ t.IsEnd (.expanded i) := by
  have hlt := lt_size_of_hop? h
  rw [isEnd_expanded_iff]
  omega

/-- A chain that can hop on goes through the location it hops to. -/
theorem reaches_iff_of_hop (h : t.hop? c i = some l) :
    t.Reaches c (.expanded i) m ↔ m = .expanded i ∨ t.Reaches c l m := by
  rw [reaches_expanded_iff, h]
  simp only [Option.some.injEq, exists_eq_left']

theorem Reaches.eq_of_isEnd (h : t.Reaches c l m) (hl : t.IsEnd l) : m = l := by
  cases h with
  | refl => rfl
  | hop hop _ => exact absurd hl (not_isEnd_of_hop hop)

/-- A chain has at most one end. -/
theorem Reaches.end_unique {k : Location} (hk : t.Reaches c l k) (hkend : t.IsEnd k)
    (hm : t.Reaches c l m) (hmend : t.IsEnd m) : k = m := by
  induction hk with
  | refl => exact (hm.eq_of_isEnd hkend).symm
  | hop hop _ ih =>
    rcases (reaches_iff_of_hop hop).1 hm with rfl | hm'
    · exact absurd hmend (not_isEnd_of_hop hop)
    · exact ih hkend hm'

/-! ## Chains that come to an entry twice -/

theorem Revisits.of_hop (h : t.hop? c i = some l) (hl : t.Revisits c l) :
    t.Revisits c (.expanded i) := by
  obtain ⟨j, k, hj, hk, hback⟩ := hl
  exact ⟨j, k, .hop h hj, hk, hback⟩

/-- One hop further on, a chain that comes to an entry twice still does. -/
theorem Revisits.hop (hi : t.Revisits c (.expanded i)) (h : t.hop? c i = some l) :
    t.Revisits c l := by
  obtain ⟨j, k, hj, hk, hback⟩ := hi
  rcases (reaches_iff_of_hop h).1 hj with heq | hj'
  · -- The entry just left is the repeated one, so the rest of the chain meets it again.
    have hji : j = i := Location.expanded.inj heq
    subst hji
    rw [h, Option.some.injEq] at hk
    subst hk
    exact ⟨j, l, hback, h, hback⟩
  · exact ⟨j, k, hj', hk, hback⟩

/-- Wherever such a chain has got to, it comes to some entry twice from there. -/
theorem Revisits.of_reaches (hl : t.Revisits c l) (hm : t.Reaches c l m) : t.Revisits c m := by
  induction hm with
  | refl => exact hl
  | hop h _ ih => exact ih (hl.hop h)

/-- A chain that comes to an entry twice has no end. -/
theorem Revisits.not_reaches_end (hl : t.Revisits c l) (hm : t.Reaches c l m) :
    ¬ t.IsEnd m := by
  intro hend
  obtain ⟨j, k, hj, hk, -⟩ := hl.of_reaches hm
  have hjm : Location.expanded j = m := hj.eq_of_isEnd hend
  rw [← hjm] at hend
  exact not_isEnd_of_hop hk hend

/-! ## Trails -/

theorem Trail.reaches (h : t.Trail c l is m) : t.Reaches c l m := by
  induction h with
  | nil => exact .refl _
  | cons hop _ ih => exact .hop hop ih

theorem Reaches.exists_trail (h : t.Reaches c l m) : ∃ is, t.Trail c l is m := by
  induction h with
  | refl => exact ⟨[], .nil _⟩
  | hop hop _ ih =>
    obtain ⟨is, his⟩ := ih
    exact ⟨_ :: is, .cons hop his⟩

theorem Trail.reaches_of_mem (h : t.Trail c l is m) (hi : i ∈ is) :
    t.Reaches c l (.expanded i) := by
  induction h with
  | nil => simp at hi
  | cons hop _ ih =>
    rcases List.mem_cons.1 hi with rfl | hi
    · exact .refl _
    · exact .hop hop (ih hi)

theorem Trail.lt_size (h : t.Trail c l is m) (hi : i ∈ is) : i < t.size := by
  induction h with
  | nil => simp at hi
  | cons hop _ ih =>
    rcases List.mem_cons.1 hi with rfl | hi
    · exact lt_size_of_hop? hop
    · exact ih hi

/-- So without repetition it is no longer than the table. -/
theorem Trail.length_le_size (h : t.Trail c l is m) (hnd : is.Nodup) : is.length ≤ t.size := by
  have hsub : is ⊆ List.range t.size := by
    intro i hi
    exact List.mem_range.2 (h.lt_size hi)
  have hle := hnd.length_le_of_subset hsub
  rwa [List.length_range] at hle

/-- A trail that repeats an entry shows a chain that comes to it twice. -/
theorem Trail.revisits (h : t.Trail c l is m) (hnd : ¬ is.Nodup) : t.Revisits c l := by
  induction h with
  | nil => exact absurd List.nodup_nil hnd
  | @cons i l m is hop htrail ih =>
    -- Either the first entry is met again, or a later one is.
    by_cases hi : i ∈ is
    · exact ⟨i, l, .refl _, hop, htrail.reaches_of_mem hi⟩
    · have hrest : ¬ is.Nodup := by
        intro hnodup
        exact hnd (List.nodup_cons.2 ⟨hi, hnodup⟩)
      exact (ih hrest).of_hop hop

/-- The trail to an end repeats nothing. -/
theorem Trail.nodup (h : t.Trail c l is m) (hm : t.IsEnd m) : is.Nodup := by
  apply Decidable.byContradiction
  intro hnd
  exact (h.revisits hnd).not_reaches_end h.reaches hm

/-- A chain either ends or can be followed for as long as one likes. -/
theorem exists_end_or_trail (t : ExpansionTable) (c : Coordinate) (n : Nat) (l : Location) :
    (∃ m, t.Reaches c l m ∧ t.IsEnd m) ∨ ∃ is m, t.Trail c l is m ∧ is.length = n := by
  induction n generalizing l with
  | zero => exact .inr ⟨[], l, .nil l, rfl⟩
  | succ n ih =>
    cases l with
    | invalid => exact .inl ⟨_, .refl _, isEnd_invalid t⟩
    | file p => exact .inl ⟨_, .refl _, isEnd_file t p⟩
    | expanded i =>
      cases hop : t.hop? c i with
      | none => exact .inl ⟨_, .refl _, hop?_eq_none_iff.1 hop⟩
      | some l =>
        rcases ih l with ⟨m, hm, hend⟩ | ⟨is, m, htrail, hlen⟩
        · exact .inl ⟨m, .hop hop hm, hend⟩
        · exact .inr ⟨i :: is, m, .cons hop htrail, by rw [List.length_cons, hlen]⟩

/-- Every chain ends or comes to some entry twice. -/
theorem exists_end_or_revisits (t : ExpansionTable) (c : Coordinate) (l : Location) :
    (∃ m, t.Reaches c l m ∧ t.IsEnd m) ∨ t.Revisits c l := by
  -- One entry more than the table has cannot be passed through without repetition.
  rcases exists_end_or_trail t c (t.size + 1) l with hend | ⟨is, m, htrail, hlen⟩
  · exact .inl hend
  · have hnd : ¬ is.Nodup := by
      intro hnodup
      have hle := htrail.length_le_size hnodup
      omega
    exact .inr (htrail.revisits hnd)

end MacroSpan.ExpansionTable
