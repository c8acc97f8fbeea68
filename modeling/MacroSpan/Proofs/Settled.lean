/-
  MacroSpan.Proofs.Settled

  Syntax and tables that are resolved in advance. `Resolver.settle r` replaces a
  location by the position that `r` gives to it, and by the invalid location if
  `r` gives none. No table changes such a location any more: a position resolves to
  itself and the invalid location to nothing, whatever is registered.

  So a resolver can be moved into the syntax. Relocated by `settle`, a node and an
  expansion or a list of tokens get the verdict from an empty table that they got
  from the resolver before. Nothing is assumed of the resolver: it may send a file
  location to another position, or find the invalid location somewhere.

  A table can be settled too. `flatten` registers its entries once more, in the same
  order, but with what their locations resolve to in place of the locations. Each
  entry of the flattened table leads to a position or to the invalid location, never
  to another entry, so that two looks find whatever there is to find
  (`resolveWithin_flatten`). All answers stay as they were, for a location resolves
  to the same position before and after its first hop. The table may hold circles and
  references to missing entries. Those fail before and after, only sooner.
-/

import MacroSpan.Relocation
import MacroSpan.Proofs.Resolution
import MacroSpan.Proofs.Verdict

namespace MacroSpan

/-- The place where a resolver finds a location, as a location again: a position,
    or the invalid location where it finds nothing. -/
def Resolver.settle (r : Resolver) (l : Location) : Location := Location.ofOption (r l)

/-! ## Settled locations -/

/-- One look at a settled location is enough, in any table. -/
theorem ExpansionTable.resolveWithin_ofOption (t : ExpansionTable) (c : Coordinate) (n : Nat)
    (o : Option Position) : t.resolveWithin c (n + 1) (Location.ofOption o) = o := by
  cases o with
  | none => exact resolveWithin_invalid t c (n + 1)
  | some p => exact resolveWithin_file t c n p

theorem ExpansionTable.resolve_ofOption (t : ExpansionTable) (c : Coordinate)
    (o : Option Position) : t.resolve c (Location.ofOption o) = o :=
  t.resolveWithin_ofOption c t.size o

/-- On settled locations every table answers what the resolver did. -/
theorem ExpansionTable.spelling_comp_settle (t : ExpansionTable) (r : Resolver) :
    t.spelling ∘ r.settle = r := by
  funext l
  exact t.resolve_ofOption .spelling (r l)

/-! ## Settled syntax -/

/-- Settled syntax aligns with respect to any table if it did under the resolver. -/
theorem aligns_settle (t : ExpansionTable) (r : Resolver) (x : Expansion) (n : Node) :
    aligns t.spelling (x.relocate r.settle) (n.relocate r.settle) = aligns r x n := by
  rw [aligns_relocate, t.spelling_comp_settle]

/-- Settled tokens spell a settled node if they did under the resolver. -/
theorem spelledFrom_settle (t : ExpansionTable) (r : Resolver) (ts : List Token) (n : Node) :
    spelledFrom t.spelling (ts.map (Token.relocate r.settle)) (n.relocate r.settle) =
      spelledFrom r ts n := by
  rw [spelledFrom_relocate, t.spelling_comp_settle]

/-- Verdicts see locations only through their resolution. Replace every location in
    a node and in an expansion or a list of tokens by the place where the resolver
    finds it, and ask again with an empty table in place of the resolver: the
    verdict is the same, whichever kind the node is given. -/
theorem verdicts_on_settled_syntax (r : Resolver) (n : Node) (k : Kind) :
    (∀ x, aligns r x n =
      aligns ExpansionTable.empty.spelling (x.relocate r.settle)
        { n.relocate r.settle with kind := k }) ∧
    (∀ ts, spelledFrom r ts n =
      spelledFrom ExpansionTable.empty.spelling (ts.map (Token.relocate r.settle))
        { n.relocate r.settle with kind := k }) := by
  -- The kind of a node does not enter its span.
  have hspan : Node.span? ExpansionTable.empty.spelling { n.relocate r.settle with kind := k } =
      (n.relocate r.settle).span? ExpansionTable.empty.spelling := rfl
  constructor
  · intro x
    rw [aligns_eq_of_span?_eq hspan, aligns_settle]
  · intro ts
    rw [spelledFrom_eq_of_span?_eq hspan, spelledFrom_settle]

/-! ## Settled tables -/

namespace ExpansionTable

/-- The entry with its spelling replaced by where the table finds that spelled, and its
    expansion by where the table finds that expanded. -/
def settleEntry (t : ExpansionTable) (e : Entry) : Entry :=
  ⟨t.spelling.settle e.spelling, t.expansion.settle e.expansion⟩

/-- The table that holds the settled entries of `t` in their order. -/
def flatten (t : ExpansionTable) : ExpansionTable := ofList (t.entries.toList.map t.settleEntry)

/-! ## Hops of the flattened table -/

theorem along_settleEntry (t : ExpansionTable) (e : Entry) (c : Coordinate) :
    (t.settleEntry e).along c = Resolver.settle (t.resolve c) (e.along c) := by
  cases c <;> rfl

/-- A hop through the flattened table leads to where the whole chain ended. -/
theorem hop?_flatten (t : ExpansionTable) (c : Coordinate) (i : Nat) :
    t.flatten.hop? c i = (t.hop? c i).map (Resolver.settle (t.resolve c)) := by
  rw [flatten, hop?_ofList, List.getElem?_map, Array.getElem?_toList, hop?]
  rw [Option.map_map, Option.map_map]
  congr 1
  funext e
  exact along_settleEntry t e c

/-! ## Answers of the flattened table -/

/-- Two looks at the flattened table find what the table finds at the end of its chain. -/
theorem resolveWithin_flatten (t : ExpansionTable) (c : Coordinate) (n : Nat) (l : Location) :
    t.flatten.resolveWithin c (n + 2) l = t.resolve c l := by
  cases l with
  | invalid => rw [resolveWithin_invalid, resolve_invalid]
  | file p => rw [resolveWithin_file, resolve_file]
  | expanded i =>
    rw [resolveWithin_expanded, hop?_flatten, resolve_expanded]
    cases t.hop? c i with
    | none => rfl
    | some m =>
      -- The second look is at the answer itself.
      exact t.flatten.resolveWithin_ofOption c n (t.resolve c m)

theorem resolve_flatten (t : ExpansionTable) (c : Coordinate) (l : Location) :
    t.flatten.resolve c l = t.resolve c l := by
  -- An empty table allows one look only, so ask with one look more than is allowed.
  have hmore : t.flatten.size + 1 ≤ t.flatten.size + 2 := by omega
  rw [← resolveWithin_eq_resolve hmore, resolveWithin_flatten]

theorem spelling_flatten (t : ExpansionTable) : t.flatten.spelling = t.spelling :=
  funext (t.resolve_flatten .spelling)

/-- It makes no difference whether levels of expansion are stripped one by one or all
    at once. The flattened table resolves every location as the table does, in both
    coordinates, and so gives the same span to every extent and the same verdict on
    every node. Each of its answers takes two looks at most. -/
theorem flattened_table_answers_alike (t : ExpansionTable) :
    (∀ l, t.flatten.spelling l = t.spelling l) ∧
    (∀ l, t.flatten.expansion l = t.expansion l) ∧
    (∀ e : Extent, e.span? t.flatten.spelling = e.span? t.spelling) ∧
    (∀ x n, aligns t.flatten.spelling x n = aligns t.spelling x n) ∧
    (∀ ts n, spelledFrom t.flatten.spelling ts n = spelledFrom t.spelling ts n) ∧
    (∀ c l, t.flatten.resolveWithin c 2 l = t.resolve c l) := by
  refine ⟨t.resolve_flatten .spelling, t.resolve_flatten .expansion, ?_, ?_, ?_, ?_⟩
  · intro e
    rw [spelling_flatten]
  · intro x n
    rw [spelling_flatten]
  · intro ts n
    rw [spelling_flatten]
  · intro c l
    exact t.resolveWithin_flatten c 0 l

-- A chain of two hops, a reference that leaves the table and a circle.
example :
    (ofList [⟨.expanded 1, .expanded 9⟩, ⟨.file ⟨⟨2⟩, 7⟩, .expanded 1⟩,
      ⟨.expanded 0, .file ⟨⟨2⟩, 1⟩⟩]).flatten =
    ofList [⟨.file ⟨⟨2⟩, 7⟩, .invalid⟩, ⟨.file ⟨⟨2⟩, 7⟩, .invalid⟩,
      ⟨.file ⟨⟨2⟩, 7⟩, .file ⟨⟨2⟩, 1⟩⟩] := by
  decide

end ExpansionTable

end MacroSpan
