/-
  MacroSpan.Proofs.Resolution

  Resolution looks at no more than `size + 1` locations and does not notice when
  it comes to an entry again. It still finds every position that an unbounded
  chain comes to: the trail to a position passes through each entry at most once,
  so the looks that are allowed cover the whole table and the position behind it.

  `resolve_eq_some_iff` says this for one coordinate, and everything else about
  resolution is read off the chains from there on. `resolution_iff_reaches` says
  it of both coordinates side by side, and `spelling_expanded` and
  `expansion_expanded` say which field of which entry an answer comes from.

  Tables only grow. Registration leaves every earlier entry as it was, so a chain
  through the smaller table is a chain through the larger one, hop by hop, and
  whatever resolved goes on resolving to the same position. What growth does
  change lies behind the end of a chain: a number that was not registered may
  become registered. `Proofs.Failure` says when that matters.
-/

import MacroSpan.Proofs.Chain

namespace MacroSpan.ExpansionTable

/-- `t.GrowsTo u`: registering further entries in `t` makes it `u`. -/
def GrowsTo (t u : ExpansionTable) : Prop := ∃ es, u = t.extend es

variable {t u v : ExpansionTable} {c : Coordinate} {i : Nat} {l m : Location} {p : Position}

/-! ## Resolution follows chains -/

/-- Following a trail to a position takes one look per entry and one at the end. -/
theorem Trail.resolveWithin {is : List Nat} {n : Nat}
    (h : t.Trail c l is m) (hm : m = .file p) (hn : is.length < n) :
    t.resolveWithin c n l = some p := by
  induction h generalizing n with
  | nil =>
    obtain ⟨n, rfl⟩ : ∃ k, n = k + 1 := ⟨n - 1, by omega⟩
    rw [hm, resolveWithin_file]
  | cons hop _ ih =>
    rw [List.length_cons] at hn
    obtain ⟨n, rfl⟩ : ∃ k, n = k + 1 := ⟨n - 1, by omega⟩
    rw [resolveWithin_expanded, hop, Option.bind_some]
    exact ih hm (by omega)

/-- A location resolves to the position that its chain comes to, however long
    that chain is. -/
theorem resolve_eq_some_iff : t.resolve c l = some p ↔ t.Reaches c l (.file p) := by
  refine ⟨?_, ?_⟩
  · intro h
    exact reaches_of_resolveWithin h
  · intro h
    -- The trail to a position repeats nothing, so `size + 1` looks are enough for it.
    obtain ⟨is, htrail⟩ := h.exists_trail
    have hnd : is.Nodup := htrail.nodup (isEnd_file t p)
    have hle : is.length ≤ t.size := htrail.length_le_size hnd
    exact htrail.resolveWithin rfl (by omega)

theorem resolve_eq_none_iff : t.resolve c l = none ↔ ∀ p, ¬ t.Reaches c l (.file p) := by
  rw [Option.eq_none_iff_forall_ne_some]
  simp only [ne_eq, resolve_eq_some_iff]

/-- A registered location resolves to what its entry resolves to. -/
theorem resolve_eq_of_hop (h : t.hop? c i = some l) :
    t.resolve c (.expanded i) = t.resolve c l := by
  apply Option.ext
  intro p
  rw [resolve_eq_some_iff, resolve_eq_some_iff, reaches_iff_of_hop h]
  simp only [reduceCtorEq, false_or]

/-- The answer for a registered location is the answer for what its entry holds. -/
theorem resolve_expanded (t : ExpansionTable) (c : Coordinate) (i : Nat) :
    t.resolve c (.expanded i) = (t.hop? c i).bind (t.resolve c) := by
  cases hop : t.hop? c i with
  | none =>
    rw [resolve_expanded_of_le (hop?_eq_none_iff.1 hop)]
    rfl
  | some l => rw [resolve_eq_of_hop hop, Option.bind_some]

/-- Entry `i` is spelled where the spelling that it was registered with is spelled. -/
theorem spelling_expanded (t : ExpansionTable) (i : Nat) :
    t.spelling (.expanded i) = t.entries[i]?.bind fun e => t.spelling e.spelling := by
  rw [spelling, resolve_expanded, hop?_spelling, Option.bind_map]
  rfl

/-- Entry `i` is expanded where the expansion that it was registered with is expanded. -/
theorem expansion_expanded (t : ExpansionTable) (i : Nat) :
    t.expansion (.expanded i) = t.entries[i]?.bind fun e => t.expansion e.expansion := by
  rw [expansion, resolve_expanded, hop?_expansion, Option.bind_map]
  rfl

/-- All locations of one chain have the same answer. -/
theorem Reaches.resolve_eq (h : t.Reaches c l m) :
    t.resolve c l = t.resolve c m := by
  induction h with
  | refl => rfl
  | hop hop _ ih => rw [resolve_eq_of_hop hop, ih]

/-- How many looks are allowed does not matter, as long as there are enough. -/
theorem resolve_eq_some_iff_exists :
    t.resolve c l = some p ↔ ∃ n, t.resolveWithin c n l = some p := by
  rw [resolve_eq_some_iff, exists_resolveWithin_iff]

/-- Looks beyond the `size + 1` that resolution allows change no answer. -/
theorem resolveWithin_eq_resolve {n : Nat} (hn : t.size + 1 ≤ n) :
    t.resolveWithin c n l = t.resolve c l := by
  apply Option.ext
  intro p
  refine ⟨?_, ?_⟩
  · intro h
    exact resolve_eq_some_iff_exists.2 ⟨n, h⟩
  · intro h
    exact resolveWithin_mono hn h

/-- Resolution is reachability along the unbounded chain, in both coordinates:
    the text of a location is spelled at `p` exactly when replacing registered
    locations by their spellings comes to `p` after finitely many hops, and its
    outermost invocation is at `p` exactly when replacing them by their
    expansions does. -/
theorem resolution_iff_reaches (t : ExpansionTable) (l : Location) (p : Position) :
    (t.spelling l = some p ↔ t.Reaches .spelling l (.file p)) ∧
    (t.expansion l = some p ↔ t.Reaches .expansion l (.file p)) := by
  constructor
  · show t.resolve .spelling l = some p ↔ _
    exact resolve_eq_some_iff
  · show t.resolve .expansion l = some p ↔ _
    exact resolve_eq_some_iff

/-! ## Growth as an order -/

theorem extend_append (t : ExpansionTable) (es fs : List Entry) :
    t.extend (es ++ fs) = (t.extend es).extend fs := List.foldl_append

/-- Registrations leave the hops from all earlier entries as they were. -/
theorem hop?_extend_of_lt (es : List Entry) (h : i < t.size) :
    (t.extend es).hop? c i = t.hop? c i := by
  induction es generalizing t with
  | nil => rfl
  | cons e es ih =>
    -- The first registration leaves entry `i` below the new size.
    have hpush : i < (t.push e).size := by rw [size_push]; omega
    rw [extend_cons, ih hpush, hop?_push_of_lt e h]

theorem growsTo_extend (t : ExpansionTable) (es : List Entry) : t.GrowsTo (t.extend es) :=
  ⟨es, rfl⟩

theorem growsTo_push (t : ExpansionTable) (e : Entry) : t.GrowsTo (t.push e) := ⟨[e], rfl⟩

theorem GrowsTo.refl (t : ExpansionTable) : t.GrowsTo t := ⟨[], rfl⟩

theorem GrowsTo.trans (htu : t.GrowsTo u) (huv : u.GrowsTo v) : t.GrowsTo v := by
  obtain ⟨es, rfl⟩ := htu
  obtain ⟨fs, rfl⟩ := huv
  exact ⟨es ++ fs, (extend_append t es fs).symm⟩

/-! ## Chains through a growing table -/

/-- A hop through a table is a hop through every table that it grows to. -/
theorem GrowsTo.hop?_eq_some (h : t.GrowsTo u) (hop : t.hop? c i = some l) :
    u.hop? c i = some l := by
  obtain ⟨es, rfl⟩ := h
  rw [hop?_extend_of_lt es (lt_size_of_hop? hop), hop]

/-- Growth keeps a trail, entry by entry. -/
theorem Trail.growsTo {is : List Nat} (hm : t.Trail c l is m) (h : t.GrowsTo u) :
    u.Trail c l is m := by
  induction hm with
  | nil => exact .nil _
  | cons hop _ ih => exact .cons (h.hop?_eq_some hop) ih

/-- What a chain comes to, it comes to in every larger table. -/
theorem Reaches.growsTo (hm : t.Reaches c l m) (h : t.GrowsTo u) : u.Reaches c l m := by
  obtain ⟨is, htrail⟩ := hm.exists_trail
  exact (htrail.growsTo h).reaches

theorem Revisits.growsTo (hl : t.Revisits c l) (h : t.GrowsTo u) : u.Revisits c l := by
  obtain ⟨i, m, hi, hop, hback⟩ := hl
  exact ⟨i, m, hi.growsTo h, h.hop?_eq_some hop, hback.growsTo h⟩

/-- An answer that a table gives is given by every table that it grows to. -/
theorem GrowsTo.resolve_eq_some (h : t.GrowsTo u) (hp : t.resolve c l = some p) :
    u.resolve c l = some p := by
  rw [resolve_eq_some_iff] at hp ⊢
  exact hp.growsTo h

end MacroSpan.ExpansionTable
