/-
  MacroSpan.Location

  Locations as a syntax tree carries them. A location is a position in a
  buffer, or the number of an entry in an expansion table, or it is invalid:
  synthesized, with no text behind it. An entry number is only a number. Which
  entry it names, and whether there is one, depends on the table that it is
  resolved against.

  A resolver is any partial map from locations to positions. Nothing is assumed
  of it, so it may send one file location to another position, or give a
  position to the invalid location.

  `Extent` is the unresolved counterpart of a span: two locations, which name a
  span once both of them resolve. A syntax node is a kind and an extent.
-/

import MacroSpan.Position

namespace MacroSpan

/-! ## Locations -/

/-- Where a token or the edge of a syntax node is. -/
inductive Location where
  /-- Synthesized, with no text behind it. -/
  | invalid
  /-- Written directly in a buffer. -/
  | file (position : Position)
  /-- Produced by a macro expansion and registered under this number. -/
  | expanded (index : Nat)
deriving DecidableEq, Inhabited, Repr

namespace Location

/-- Whether there can be text behind a location. -/
def isValid : Location → Bool
  | invalid => false
  | file _ | expanded _ => true

/-- Whether a location was produced by a macro expansion. -/
def isExpanded : Location → Bool
  | expanded _ => true
  | invalid | file _ => false

theorem isValid_iff {l : Location} : l.isValid = true ↔ l ≠ invalid := by
  cases l <;> simp [isValid]

theorem isExpanded_iff {l : Location} : l.isExpanded = true ↔ ∃ i, l = expanded i := by
  cases l <;> simp [isExpanded]

end Location

/-! ## Resolvers -/

/-- A partial map from locations to the positions where their text is spelled. -/
abbrev Resolver := Location → Option Position

namespace Resolver

/-- The resolver given by a list of rows. The first row for a location decides,
    and its value is final: it is not looked up again. -/
def ofRows (rows : List (Location × Option Position)) : Resolver :=
  fun l => (rows.lookup l).join

@[simp] theorem ofRows_nil (l : Location) : ofRows [] l = none := rfl

/-- A row decides about its own location, however later rows put it. -/
theorem ofRows_cons_self (l : Location) (p : Option Position)
    (rows : List (Location × Option Position)) : ofRows ((l, p) :: rows) l = p := by
  simp [ofRows]

/-- A row says nothing about any other location. -/
theorem ofRows_cons_ne {k l : Location} (h : l ≠ k) (p : Option Position)
    (rows : List (Location × Option Position)) : ofRows ((k, p) :: rows) l = ofRows rows l := by
  simp [ofRows, List.lookup_cons, beq_eq_false_iff_ne.2 h]

end Resolver

/-! ## Extents -/

/-- The first and the last location of a piece of syntax. -/
structure Extent where
  first : Location
  last : Location
deriving DecidableEq, Inhabited, Repr

namespace Extent

/-- The span between the positions of both ends, if both resolve. -/
def span? (r : Resolver) (e : Extent) : Option Span :=
  match r e.first, r e.last with
  | some p, some q => some ⟨p, q⟩
  | _, _ => none

/-- The span of an extent together with the membership of each of a list of
    positions in it. -/
def probe? (r : Resolver) (ps : List Position) (e : Extent) : Option (Span × List Bool) :=
  (e.span? r).map fun s => (s, s.containsEach ps)

/-- A span comes from resolving the two ends, each for itself; they need not be in
    order. -/
theorem span?_eq_some_iff {r : Resolver} {e : Extent} {s : Span} :
    e.span? r = some s ↔ r e.first = some s.first ∧ r e.last = some s.last := by
  obtain ⟨p, q⟩ := s
  unfold span?
  cases r e.first <;> cases r e.last <;> simp

/-- One end that does not resolve is enough to have no span. -/
theorem span?_eq_none_iff {r : Resolver} {e : Extent} :
    e.span? r = none ↔ r e.first = none ∨ r e.last = none := by
  unfold span?
  cases r e.first <;> cases r e.last <;> simp

end Extent

/-! ## Nodes -/

/-- What a syntax node is. No question about spans depends on it. -/
inductive Kind where
  | declaration
  | statement
  | typeReference
deriving DecidableEq, Inhabited, Repr

/-- A piece of syntax with its first and last location. -/
structure Node where
  kind : Kind
  extent : Extent
deriving DecidableEq, Inhabited, Repr

/-- The span of a node, if both of its ends resolve. -/
def Node.span? (r : Resolver) (n : Node) : Option Span := n.extent.span? r

end MacroSpan
