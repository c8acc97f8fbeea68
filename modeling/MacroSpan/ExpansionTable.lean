/-
  MacroSpan.ExpansionTable

  The expansion table: for every location that a macro expansion produced, where
  its text is spelled and where the expansion was invoked. Both are locations
  again, for expansions nest, and nothing keeps an entry from naming a later
  entry, a missing one or itself.

  Resolution follows one of the two coordinates from entry to entry until it
  meets a position. A chain that visits no entry twice needs at most one look
  per entry and one more for its end, so `size + 1` looks are allowed and a
  chain that needs more is given up.

  `Profile` collects what a table says about one location, and `listing` the
  answers for all registered numbers and the first unregistered one.
-/

import MacroSpan.Location

namespace MacroSpan

/-- What one expanded location stands for. -/
structure Entry where
  /-- Where the text comes from. -/
  spelling : Location
  /-- Where the expansion that produced it was invoked. -/
  expansion : Location
deriving DecidableEq, Inhabited, Repr

/-- The two ways to follow an entry. -/
inductive Coordinate where
  /-- Toward the place where the text is spelled. -/
  | spelling
  /-- Toward the outermost invocation. -/
  | expansion
deriving DecidableEq, Inhabited, Repr

/-- The location that an entry holds for a coordinate. -/
def Entry.along (e : Entry) : Coordinate → Location
  | .spelling => e.spelling
  | .expansion => e.expansion

/-- A growing table of entries; entry `i` belongs to the location `expanded i`. -/
structure ExpansionTable where
  entries : Array Entry
deriving DecidableEq, Inhabited, Repr

namespace ExpansionTable

/-- The table with no entry. -/
def empty : ExpansionTable := ⟨#[]⟩

/-- Number of registered locations. -/
def size (t : ExpansionTable) : Nat := t.entries.size

/-- Whether no location is registered. -/
def isEmpty (t : ExpansionTable) : Bool := t.entries.isEmpty

/-- The location that the next registration hands out. -/
def fresh (t : ExpansionTable) : Location := .expanded t.size

/-- Registers `fresh` with the given entry. -/
def push (t : ExpansionTable) (e : Entry) : ExpansionTable := ⟨t.entries.push e⟩

/-- Registers entries one after the other. -/
def extend (t : ExpansionTable) (es : List Entry) : ExpansionTable := es.foldl push t

/-- The table that holds the given entries in order. -/
def ofList (es : List Entry) : ExpansionTable := empty.extend es

/-! ## Resolution -/

/-- The location that entry `i` holds for a coordinate, if it is registered. -/
def hop? (t : ExpansionTable) (c : Coordinate) (i : Nat) : Option Location :=
  t.entries[i]?.map (·.along c)

/-- Follows a coordinate for at most the given number of looks at a location. -/
def resolveWithin (t : ExpansionTable) (c : Coordinate) : Nat → Location → Option Position
  | 0, _ => none
  | _ + 1, .invalid => none
  | _ + 1, .file p => some p
  | n + 1, .expanded i => (t.hop? c i).bind (t.resolveWithin c n)

/-- The position at which following a coordinate ends. -/
def resolve (t : ExpansionTable) (c : Coordinate) (l : Location) : Option Position :=
  t.resolveWithin c (t.size + 1) l

/-- Where the text at a location is spelled, every level of expansion stripped. -/
def spelling (t : ExpansionTable) : Resolver := t.resolve .spelling

/-- Where the outermost expansion behind a location was invoked. -/
def expansion (t : ExpansionTable) : Resolver := t.resolve .expansion

/-! ## Size and entries -/

@[simp] theorem size_empty : empty.size = 0 := rfl

@[simp] theorem size_push (t : ExpansionTable) (e : Entry) : (t.push e).size = t.size + 1 :=
  Array.size_push e

theorem isEmpty_iff {t : ExpansionTable} : t.isEmpty = true ↔ t.size = 0 := by
  simp [isEmpty, size]

@[simp] theorem extend_nil (t : ExpansionTable) : t.extend [] = t := rfl

@[simp] theorem extend_cons (t : ExpansionTable) (e : Entry) (es : List Entry) :
    t.extend (e :: es) = (t.push e).extend es := rfl

/-- New entries come behind those that are there. -/
theorem entries_extend (t : ExpansionTable) (es : List Entry) :
    (t.extend es).entries = t.entries ++ es.toArray := by
  induction es generalizing t with
  | nil => simp
  | cons e es ih => simp [ih, push]

@[simp] theorem entries_ofList (es : List Entry) : (ofList es).entries = es.toArray := by
  simp [ofList, entries_extend, empty]

@[simp] theorem size_ofList (es : List Entry) : (ofList es).size = es.length := by
  simp [size]

@[simp] theorem size_extend (t : ExpansionTable) (es : List Entry) :
    (t.extend es).size = t.size + es.length := by
  simp [size, entries_extend]

/-! ## Hops -/

/-- Along spellings a hop reads the spelling of the entry with that number. -/
theorem hop?_spelling (t : ExpansionTable) (i : Nat) :
    t.hop? .spelling i = t.entries[i]?.map Entry.spelling := rfl

/-- Along expansions a hop reads the expansion of the entry with that number. -/
theorem hop?_expansion (t : ExpansionTable) (i : Nat) :
    t.hop? .expansion i = t.entries[i]?.map Entry.expansion := rfl

/-- There is no hop from a number that is not registered, and one from every other. -/
theorem hop?_eq_none_iff {t : ExpansionTable} {c : Coordinate} {i : Nat} :
    t.hop? c i = none ↔ t.size ≤ i := by
  simp [hop?, size]

theorem hop?_ofList (es : List Entry) (c : Coordinate) (i : Nat) :
    (ofList es).hop? c i = es[i]?.map (·.along c) := by
  rw [hop?, entries_ofList, List.getElem?_toArray]

theorem hop?_isSome_iff {t : ExpansionTable} {c : Coordinate} {i : Nat} :
    (t.hop? c i).isSome = true ↔ i < t.size := by
  simp [hop?, size]

theorem lt_size_of_hop? {t : ExpansionTable} {c : Coordinate} {i : Nat} {l : Location}
    (h : t.hop? c i = some l) : i < t.size :=
  hop?_isSome_iff.1 (by rw [h]; rfl)

/-- Registration leaves the hops from earlier entries as they were. -/
theorem hop?_push_of_lt {t : ExpansionTable} {c : Coordinate} {i : Nat} (e : Entry)
    (h : i < t.size) : (t.push e).hop? c i = t.hop? c i := by
  have hne : i ≠ t.entries.size := Nat.ne_of_lt h
  simp [hop?, push, Array.getElem?_push, hne]

/-- The new entry is found under the number that it was registered with. -/
@[simp] theorem hop?_push_size (t : ExpansionTable) (c : Coordinate) (e : Entry) :
    (t.push e).hop? c t.size = some (e.along c) := by
  simp [hop?, push, size]

/-! ## Resolution, one look at a time -/

@[simp] theorem resolveWithin_zero (t : ExpansionTable) (c : Coordinate) (l : Location) :
    t.resolveWithin c 0 l = none := rfl

@[simp] theorem resolveWithin_invalid (t : ExpansionTable) (c : Coordinate) (n : Nat) :
    t.resolveWithin c n .invalid = none := by
  cases n <;> rfl

@[simp] theorem resolveWithin_file (t : ExpansionTable) (c : Coordinate) (n : Nat)
    (p : Position) : t.resolveWithin c (n + 1) (.file p) = some p := rfl

/-- A look at a registered location is spent on its entry and leads on from there. -/
theorem resolveWithin_expanded (t : ExpansionTable) (c : Coordinate) (n i : Nat) :
    t.resolveWithin c (n + 1) (.expanded i) = (t.hop? c i).bind (t.resolveWithin c n) := rfl

@[simp] theorem resolve_invalid (t : ExpansionTable) (c : Coordinate) :
    t.resolve c .invalid = none := rfl

@[simp] theorem resolve_file (t : ExpansionTable) (c : Coordinate) (p : Position) :
    t.resolve c (.file p) = some p := rfl

/-- A number that is not registered does not resolve. -/
theorem resolve_expanded_of_le {t : ExpansionTable} {c : Coordinate} {i : Nat}
    (h : t.size ≤ i) : t.resolve c (.expanded i) = none := by
  rw [resolve, resolveWithin_expanded, hop?_eq_none_iff.2 h]
  rfl

/-- An answer found within a budget is found within every larger one. -/
theorem resolveWithin_mono {t : ExpansionTable} {c : Coordinate} {p : Position} {m n : Nat}
    (hmn : m ≤ n) {l : Location} (h : t.resolveWithin c m l = some p) :
    t.resolveWithin c n l = some p := by
  induction m generalizing n l with
  | zero => simp at h
  | succ m ih =>
    obtain ⟨n, rfl⟩ : ∃ k, n = k + 1 := ⟨n - 1, by omega⟩
    cases l with
    | invalid => simp at h
    | file q => exact h
    | expanded i =>
      rw [resolveWithin_expanded, Option.bind_eq_some_iff] at h ⊢
      obtain ⟨l, hl, hp⟩ := h
      exact ⟨l, hl, ih (by omega) hp⟩

end ExpansionTable

/-! ## Profiles -/

/-- Everything there is to ask about one location. -/
structure Profile where
  isValid : Bool
  isExpanded : Bool
  spelling : Option Position
  expansion : Option Position
deriving DecidableEq, Inhabited, Repr

namespace ExpansionTable

/-- The profile of a location. Validity and kind are read off the location; the
    table only takes part in the two resolutions. -/
def profile (t : ExpansionTable) (l : Location) : Profile where
  isValid := l.isValid
  isExpanded := l.isExpanded
  spelling := t.spelling l
  expansion := t.expansion l

/-- Answers for the numbers `0, …, size`: every registered location, and the one
    that is handed out next. -/
def listing (t : ExpansionTable) (c : Coordinate) : List (Option Position) :=
  (List.range (t.size + 1)).map fun i => t.resolve c (.expanded i)

@[simp] theorem length_listing (t : ExpansionTable) (c : Coordinate) :
    (t.listing c).length = t.size + 1 := by
  simp [listing]

/-- The location that is handed out next does not resolve yet. -/
theorem resolve_fresh (t : ExpansionTable) (c : Coordinate) : t.resolve c t.fresh = none :=
  resolve_expanded_of_le (Nat.le_refl _)

/-- So a listing ends with a number that has no answer. -/
theorem getLast?_listing (t : ExpansionTable) (c : Coordinate) :
    (t.listing c).getLast? = some none := by
  simp [listing, List.range_succ, resolve_expanded_of_le]

end ExpansionTable

end MacroSpan
