/-
  MacroSpan.Position

  Positions in source text: a byte offset inside one of several numbered
  buffers. Positions are ordered by buffer first and by offset second.

  The order is the order of one linear address space in which every buffer owns
  a block of `UInt32.size` consecutive addresses: `Position.compare_eq_compare_address`
  says so, and `le_iff_address_le`, `lt_iff_address_lt` and `address_inj` carry
  the three relations over to `Nat`, where `omega` decides them.

  Two positions bound a closed span, which may begin in one buffer and end in
  another. A position is a member when it lies between the two ends, the ends
  included; a span whose ends are the wrong way round has no member.

  Spans and lists both have a first and a last edge. `Edge` names the two, so
  that what holds at either edge is said and proved once.
-/

namespace MacroSpan

/-! ## Buffers -/

/-- Number of a source buffer. -/
structure FileId where
  index : UInt32
deriving DecidableEq, Inhabited, Repr

/-- Buffers are ordered by their numbers. -/
instance : Ord FileId := ⟨fun a b => compare a.index b.index⟩

theorem FileId.compare_def (a b : FileId) : compare a b = compare a.index b.index := rfl

/-! ## Positions and their order -/

/-- A byte offset inside a source buffer. -/
structure Position where
  file : FileId
  offset : UInt32
deriving DecidableEq, Inhabited, Repr

namespace Position

/-- Positions are ordered by buffer, and inside one buffer by offset. -/
instance : Ord Position :=
  ⟨fun a b => (compare a.file b.file).then (compare a.offset b.offset)⟩

instance : LE Position := leOfOrd

instance : LT Position := ltOfOrd

instance : DecidableLE Position := fun a b =>
  inferInstanceAs (Decidable ((compare a b).isLE = true))

instance : DecidableLT Position := fun a b =>
  inferInstanceAs (Decidable (compare a b = .lt))

/-- The earlier of two positions. -/
instance : Min Position := .leftLeaningOfLE Position

/-- The later of two positions. -/
instance : Max Position := .leftLeaningOfLE Position

theorem compare_def (a b : Position) :
    compare a b = (compare a.file b.file).then (compare a.offset b.offset) := rfl

theorem le_def (a b : Position) : a ≤ b ↔ (compare a b).isLE = true := Iff.rfl

theorem lt_def (a b : Position) : a < b ↔ compare a b = .lt := Iff.rfl

/-! ## Linear addresses -/

/-- Place of a position in the address space in which buffer `k` owns the block
    of `UInt32.size` addresses that starts at `k * UInt32.size`. -/
def address (p : Position) : Nat :=
  p.file.index.toNat * UInt32.size + p.offset.toNat

/-- An address splits in one way only, since an offset cannot leave its block: the
    smaller buffer number decides, and only in the same buffer the offset. -/
theorem address_lt_iff {a b : Position} :
    a.address < b.address ↔
      a.file.index.toNat < b.file.index.toNat ∨
        a.file.index.toNat = b.file.index.toNat ∧ a.offset.toNat < b.offset.toNat := by
  have hsize : UInt32.size = 4294967296 := rfl
  have ha := a.offset.toNat_lt
  have hb := b.offset.toNat_lt
  simp only [address, hsize]
  omega

/-- Different positions have different addresses. -/
theorem address_inj {a b : Position} : a.address = b.address ↔ a = b := by
  refine ⟨fun h => ?_, congrArg address⟩
  have hlt : ¬ a.address < b.address := by omega
  have hgt : ¬ b.address < a.address := by omega
  rw [address_lt_iff] at hlt hgt
  have hfile : a.file.index = b.file.index := UInt32.toNat_inj.1 (by omega)
  have hoffset : a.offset = b.offset := UInt32.toNat_inj.1 (by omega)
  obtain ⟨⟨f⟩, o⟩ := a
  obtain ⟨⟨g⟩, q⟩ := b
  cases hfile
  cases hoffset
  rfl

/-- A position comes earlier exactly if its address is smaller. -/
theorem lt_iff_address_lt {a b : Position} : a < b ↔ a.address < b.address := by
  rw [lt_def, compare_def, Ordering.then_eq_lt, FileId.compare_def, Std.compare_eq_lt,
    Std.compare_eq_iff_eq, Std.compare_eq_lt, address_lt_iff, UInt32.lt_iff_toNat_lt,
    UInt32.lt_iff_toNat_lt, UInt32.toNat_inj]

theorem compare_eq_eq_iff {a b : Position} : compare a b = .eq ↔ a = b := by
  obtain ⟨⟨f⟩, o⟩ := a
  obtain ⟨⟨g⟩, q⟩ := b
  rw [compare_def, Ordering.then_eq_eq, FileId.compare_def, Std.compare_eq_iff_eq,
    Std.compare_eq_iff_eq, mk.injEq, FileId.mk.injEq]

/-- The order of positions is the order of their addresses. -/
theorem compare_eq_compare_address (a b : Position) :
    compare a b = compare a.address b.address := by
  cases h : compare a b with
  | lt => rw [Nat.compare_eq_lt.2 (lt_iff_address_lt.1 h)]
  | eq => rw [Nat.compare_eq_eq.2 (congrArg address (compare_eq_eq_iff.1 h))]
  | gt =>
    -- Neither smaller nor equal, so the address is greater.
    have hlt : ¬ a.address < b.address := by
      rw [← lt_iff_address_lt, lt_def, h]
      decide
    have hne : a.address ≠ b.address := by
      rw [ne_eq, address_inj, ← compare_eq_eq_iff, h]
      decide
    rw [Nat.compare_eq_gt.2 (by omega)]

theorem le_iff_address_le {a b : Position} : a ≤ b ↔ a.address ≤ b.address := by
  rw [le_def, compare_eq_compare_address, Nat.isLE_compare]

/-! ## Linearity

The order inherits every law of the order on addresses. -/

theorem le_refl (a : Position) : a ≤ a := le_iff_address_le.2 (Nat.le_refl _)

theorem le_trans {a b c : Position} (hab : a ≤ b) (hbc : b ≤ c) : a ≤ c :=
  le_iff_address_le.2 (Nat.le_trans (le_iff_address_le.1 hab) (le_iff_address_le.1 hbc))

theorem le_antisymm {a b : Position} (hab : a ≤ b) (hba : b ≤ a) : a = b :=
  address_inj.1 (Nat.le_antisymm (le_iff_address_le.1 hab) (le_iff_address_le.1 hba))

theorem le_total (a b : Position) : a ≤ b ∨ b ≤ a := by
  simp only [le_iff_address_le]
  exact Nat.le_total _ _

theorem not_le {a b : Position} : ¬ a ≤ b ↔ b < a := by
  rw [le_iff_address_le, lt_iff_address_lt, Nat.not_le]

/-- In a later buffer every position is later, whatever the offsets. -/
theorem lt_of_file_lt {a b : Position} (h : a.file.index < b.file.index) : a < b := by
  rw [lt_iff_address_lt, address_lt_iff]
  exact .inl (UInt32.lt_iff_toNat_lt.1 h)

instance : Std.IsLinearOrder Position where
  le_refl := le_refl
  le_trans _ _ _ := le_trans
  le_antisymm _ _ := le_antisymm
  le_total := le_total

end Position

/-! ## Edges -/

/-- The two edges of a list or of a span. -/
inductive Edge where
  | first
  | last
deriving DecidableEq, Inhabited, Repr

namespace Edge

variable {α β : Type} {e : Edge} {l : List α} {a : α}

/-- The item at an edge of a list; there is none if the list is empty. -/
def of? : Edge → List α → Option α
  | first, l => l.head?
  | last, l => l.getLast?

/-- A statement about both edges is one statement about each. -/
theorem forall_iff {P : Edge → Prop} : (∀ e, P e) ↔ P .first ∧ P .last := by
  refine ⟨fun h => ⟨h .first, h .last⟩, ?_⟩
  rintro ⟨hfirst, hlast⟩ e
  cases e with
  | first => exact hfirst
  | last => exact hlast

@[simp] theorem of?_nil (e : Edge) : e.of? ([] : List α) = none := by
  cases e <;> rfl

theorem of?_map (e : Edge) (f : α → β) (l : List α) : e.of? (l.map f) = (e.of? l).map f := by
  cases e with
  | first => exact List.head?_map
  | last => exact List.getLast?_map

theorem mem_of_of? (h : e.of? l = some a) : a ∈ l := by
  cases e with
  | first => exact List.mem_of_mem_head? h
  | last => exact List.mem_of_getLast? h

/-- Only the empty list has no edges. -/
theorem of?_eq_none_iff : e.of? l = none ↔ l = [] := by
  cases e with
  | first => exact List.head?_eq_none_iff
  | last => exact List.getLast?_eq_none_iff

theorem exists_of? (e : Edge) (h : l ≠ []) : ∃ a, e.of? l = some a :=
  Option.ne_none_iff_exists'.1 fun hnone => h (of?_eq_none_iff.1 hnone)

end Edge

/-! ## Spans -/

/-- The positions from `first` to `last`, both included. -/
structure Span where
  first : Position
  last : Position
deriving DecidableEq, Inhabited, Repr

namespace Span

/-- A position is in a span when it is neither before its first position nor
    after its last. -/
instance : Membership Position Span := ⟨fun s p => s.first ≤ p ∧ p ≤ s.last⟩

theorem mem_def {s : Span} {p : Position} : p ∈ s ↔ s.first ≤ p ∧ p ≤ s.last := Iff.rfl

instance (p : Position) (s : Span) : Decidable (p ∈ s) :=
  inferInstanceAs (Decidable (s.first ≤ p ∧ p ≤ s.last))

/-- The position at an edge of a span. -/
def edge (s : Span) : Edge → Position
  | .first => s.first
  | .last => s.last

/-- For each of a list of positions, whether it is in the span. -/
def containsEach (s : Span) (ps : List Position) : List Bool :=
  ps.map fun p => decide (p ∈ s)

@[simp] theorem edge_first (s : Span) : s.edge .first = s.first := rfl

@[simp] theorem edge_last (s : Span) : s.edge .last = s.last := rfl

/-- A span is determined by its edges. -/
theorem eq_of_edge_eq {s u : Span} (h : ∀ e, s.edge e = u.edge e) : s = u := by
  obtain ⟨p, q⟩ := s
  obtain ⟨p', q'⟩ := u
  cases h .first
  cases h .last
  rfl

/-- Through addresses, membership in a span is membership in an interval of numbers. -/
theorem mem_iff_address {s : Span} {p : Position} :
    p ∈ s ↔ s.first.address ≤ p.address ∧ p.address ≤ s.last.address := by
  rw [mem_def, Position.le_iff_address_le, Position.le_iff_address_le]

/-- Either edge of a span is a member exactly if the two are in order. -/
theorem edge_mem_iff {s : Span} {e : Edge} : s.edge e ∈ s ↔ s.first ≤ s.last := by
  cases e with
  | first => exact ⟨And.right, fun h => ⟨Position.le_refl _, h⟩⟩
  | last => exact ⟨And.left, fun h => ⟨h, Position.le_refl _⟩⟩

end Span

end MacroSpan
