/-
  MacroSpan.Proofs.OrderedRegistration

  Registration in order. Nothing keeps an entry from naming a number that is not
  registered yet, but a run in which no entry does so is simple: every hop leads to
  a smaller number, so every chain comes down to a position or to the invalid
  location. It never leaves the table and never runs in a circle.

  In such a run it does not matter when a location is resolved. What its entry
  resolves to just before it is registered is what the location resolves to at
  every later moment, even if the chain comes down through the whole table.

  The condition is on one coordinate at a time; the other is free.
-/

import MacroSpan.Proofs.Failure

namespace MacroSpan

/-- The location names no number from `n` on. -/
def Location.Below (n : Nat) : Location → Prop
  | .expanded i => i < n
  | .file _ | .invalid => True

instance (n : Nat) : DecidablePred (Location.Below n)
  | .expanded i => inferInstanceAs (Decidable (i < n))
  | .file _ | .invalid => isTrue trivial

namespace ExpansionTable

/-- Each of the entries, when its turn comes, leads to the invalid location, to a
    position, or to a location that the table has handed out before. -/
def RegistersInOrder (c : Coordinate) : ExpansionTable → List Entry → Prop
  | _, [] => True
  | t, e :: es => (e.along c).Below t.size ∧ RegistersInOrder c (t.push e) es

instance decidableRegistersInOrder (c : Coordinate) :
    (t : ExpansionTable) → (es : List Entry) → Decidable (RegistersInOrder c t es)
  | _, [] => isTrue trivial
  | t, e :: es =>
    have := decidableRegistersInOrder c (t.push e) es
    inferInstanceAs (Decidable ((e.along c).Below t.size ∧ RegistersInOrder c (t.push e) es))

/-- Every hop leads to a smaller number, to a position or to the invalid location. -/
def Descending (t : ExpansionTable) (c : Coordinate) : Prop :=
  ∀ i l, t.hop? c i = some l → l.Below i

variable {t u : ExpansionTable} {c : Coordinate} {e : Entry} {es fs : List Entry} {l : Location}

/-! ## Descending tables along a run -/

theorem descending_empty (c : Coordinate) : empty.Descending c := by
  intro i l hop
  have hlt := lt_size_of_hop? hop
  rw [size_empty] at hlt
  omega

/-- One registration in order keeps all hops going down. -/
theorem Descending.push (h : t.Descending c) (he : (e.along c).Below t.size) :
    (t.push e).Descending c := by
  intro i l hop
  by_cases hi : i < t.size
  · rw [hop?_push_of_lt e hi] at hop
    exact h i l hop
  · -- The only other entry is the new one.
    have hlt := lt_size_of_hop? hop
    rw [size_push] at hlt
    have hieq : i = t.size := by omega
    subst hieq
    rw [hop?_push_size, Option.some.injEq] at hop
    exact hop ▸ he

/-- So does a whole run in order. -/
theorem RegistersInOrder.descending_extend (h : RegistersInOrder c t es) (ht : t.Descending c) :
    (t.extend es).Descending c := by
  induction es generalizing t with
  | nil => exact ht
  | cons e es ih =>
    obtain ⟨he, hes⟩ := h
    exact ih hes (ht.push he)

theorem Descending.of_growsTo (h : u.Descending c) (hgrow : t.GrowsTo u) : t.Descending c := by
  intro i l hop
  exact h i l (hgrow.hop?_eq_some hop)

/-! ## Chains that descend -/

theorem Descending.reaches_end_of_lt (h : t.Descending c) {i : Nat} (hi : i < t.size) :
    t.Reaches c (.expanded i) .invalid ∨ ∃ p, t.Reaches c (.expanded i) (.file p) := by
  -- Strong induction on the number: an entry may lead to any smaller one.
  induction i using Nat.strongRecOn with
  | ind i ih =>
    have hsome : (t.hop? c i).isSome = true := hop?_isSome_iff.2 hi
    obtain ⟨m, hop⟩ := Option.isSome_iff_exists.1 hsome
    have hm : m.Below i := h i m hop
    cases m with
    | invalid => exact .inl (.hop hop (.refl _))
    | file p => exact .inr ⟨p, .hop hop (.refl _)⟩
    | expanded j =>
      have hj : j < i := hm
      rcases ih j hj (by omega) with hinv | ⟨p, hp⟩
      · exact .inl (.hop hop hinv)
      · exact .inr ⟨p, .hop hop hp⟩

/-- In a descending table every chain that starts inside comes down to a position or to
    the invalid location. -/
theorem Descending.reaches_end (h : t.Descending c) (hl : l.Below t.size) :
    t.Reaches c l .invalid ∨ ∃ p, t.Reaches c l (.file p) := by
  cases l with
  | invalid => exact .inl (.refl _)
  | file p => exact .inr ⟨p, .refl _⟩
  | expanded i => exact h.reaches_end_of_lt hl

theorem Descending.not_danglesAt (h : t.Descending c) (hl : l.Below t.size) (k : Nat) :
    ¬ t.DanglesAt c l k := by
  rintro ⟨hk, hend⟩
  rcases h.reaches_end hl with hinv | ⟨p, hp⟩
  · have heq := hk.end_unique hend hinv (isEnd_invalid t)
    cases heq
  · have heq := hk.end_unique hend hp (isEnd_file t p)
    cases heq

/-- What is resolved in a descending table stays so, whether it was found or not. -/
theorem Descending.resolve_growsTo (h : t.Descending c) (hl : l.Below t.size)
    (hgrow : t.GrowsTo u) : u.resolve c l = t.resolve c l :=
  hgrow.resolve_eq (h.not_danglesAt hl)

/-- The invalid location is the only cause of failure in a descending table. -/
theorem Descending.resolve_eq_none_iff (h : t.Descending c) (hl : l.Below t.size) :
    t.resolve c l = none ↔ t.Reaches c l .invalid := by
  refine ⟨?_, ?_⟩
  · intro hnone
    rcases h.reaches_end hl with hinv | ⟨p, hp⟩
    · exact hinv
    · rw [resolve_eq_some_iff.2 hp] at hnone
      cases hnone
  · intro hinv
    have hfails : t.FailsBy c l .invalid := hinv
    exact hfails.resolve_eq_none

/-- A chain comes to the invalid location only through an entry that holds it. -/
theorem Reaches.ne_invalid {m : Location} (h : t.Reaches c l m)
    (hentries : ∀ i, t.hop? c i ≠ some .invalid) (hl : l ≠ .invalid) : m ≠ .invalid := by
  induction h with
  | refl => exact hl
  | hop hop _ ih =>
    apply ih
    rintro rfl
    exact hentries _ hop

/-- Without an entry that holds it, every location resolves. -/
theorem Descending.exists_resolve_eq_some (h : t.Descending c)
    (hentries : ∀ i, t.hop? c i ≠ some .invalid) (hl : l.Below t.size) (hne : l ≠ .invalid) :
    ∃ p, t.resolve c l = some p := by
  rcases h.reaches_end hl with hinv | ⟨p, hp⟩
  · exact absurd rfl (hinv.ne_invalid hentries hne)
  · exact ⟨p, resolve_eq_some_iff.2 hp⟩

/-! ## The states of a run -/

theorem growsTo_ofList_of_isPrefix (h : es <+: fs) : (ofList es).GrowsTo (ofList fs) := by
  obtain ⟨ds, rfl⟩ := h
  exact ⟨ds, extend_append empty es ds⟩

theorem hop?_ofList_take {i k : Nat} (he : es[i]? = some e) (hik : i < k) :
    (ofList (es.take k)).hop? c i = some (e.along c) := by
  rw [hop?_ofList, List.getElem?_take_of_lt hik, he, Option.map_some]

/-- Every state of a run in order is descending. -/
theorem RegistersInOrder.descending_take (h : RegistersInOrder c empty es) (k : Nat) :
    (ofList (es.take k)).Descending c := by
  have hall : (ofList es).Descending c := h.descending_extend (descending_empty c)
  exact hall.of_growsTo (growsTo_ofList_of_isPrefix (List.take_prefix k es))

/-- In a run that registers in order it makes no difference when a location is
    resolved. From its registration on, location `i` resolves to what its entry
    resolved to just before, and it resolves to nothing exactly if its chain comes to
    the invalid location. As long as no entry holds that, every registered location
    resolves. -/
theorem ordered_run_resolves_at_registration (c : Coordinate) (es : List Entry)
    (h : RegistersInOrder c empty es) :
    (∀ i e k, es[i]? = some e → i < k →
      (ofList (es.take k)).resolve c (.expanded i) = (ofList (es.take i)).resolve c (e.along c) ∧
      ((ofList (es.take k)).resolve c (.expanded i) = none ↔
        (ofList (es.take k)).Reaches c (.expanded i) .invalid)) ∧
    (∀ k, (∀ e ∈ es.take k, e.along c ≠ .invalid) → ∀ i < (ofList (es.take k)).size,
      ∃ p, (ofList (es.take k)).resolve c (.expanded i) = some p) := by
  constructor
  · intro i e k he hik
    have hlen : i < es.length := (List.getElem?_eq_some_iff.1 he).1
    have hop : (ofList (es.take k)).hop? c i = some (e.along c) := hop?_ofList_take he hik
    constructor
    · have hsize : (ofList (es.take i)).size = i := by
        rw [size_ofList, List.length_take]
        omega
      have hbelow : (e.along c).Below (ofList (es.take i)).size := by
        rw [hsize]
        exact h.descending_take k i _ hop
      have hgrow : (ofList (es.take i)).GrowsTo (ofList (es.take k)) :=
        growsTo_ofList_of_isPrefix (List.take_prefix_take_left (by omega))
      -- One hop leads to the entry, whose chain lies in the earlier table already.
      rw [resolve_eq_of_hop hop]
      exact (h.descending_take i).resolve_growsTo hbelow hgrow
    · exact (h.descending_take k).resolve_eq_none_iff (lt_size_of_hop? hop)
  · intro k hvalid i hi
    have hentries : ∀ j, (ofList (es.take k)).hop? c j ≠ some .invalid := by
      intro j hop
      rw [hop?_ofList, Option.map_eq_some_iff] at hop
      obtain ⟨e, he, hinv⟩ := hop
      exact hvalid e (List.mem_of_getElem? he) hinv
    have hne : Location.expanded i ≠ .invalid := by simp
    exact (h.descending_take k).exists_resolve_eq_some hentries hi hne

/-- Entry 3 comes down through entries 1 and 0 to a position and entry 4 through
    entry 2 to the invalid location; the expansions leave the table throughout. -/
theorem nested_entries_resolve_at_registration :
    let es : List Entry := [⟨.file ⟨⟨2⟩, 6⟩, .expanded 9⟩, ⟨.expanded 0, .expanded 9⟩,
      ⟨.invalid, .expanded 9⟩, ⟨.expanded 1, .expanded 9⟩, ⟨.expanded 2, .expanded 9⟩]
    RegistersInOrder .spelling empty es ∧
    (ofList (es.take 5)).resolve .spelling (.expanded 3) =
      (ofList (es.take 3)).resolve .spelling (.expanded 1) ∧
    ((ofList (es.take 5)).resolve .spelling (.expanded 4) = none ↔
      (ofList (es.take 5)).Reaches .spelling (.expanded 4) .invalid) ∧
    ∃ p, (ofList (es.take 2)).resolve .spelling (.expanded 1) = some p := by
  intro es
  have horder : RegistersInOrder .spelling empty es := by decide
  obtain ⟨hsame, hall⟩ := ordered_run_resolves_at_registration .spelling es horder
  exact ⟨horder, (hsame 3 _ 5 rfl (by decide)).1, (hsame 4 _ 5 rfl (by decide)).2,
    hall 2 (by decide) 1 (by decide)⟩

end ExpansionTable

end MacroSpan
