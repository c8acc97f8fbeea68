/-
  MacroSpan.Matching

  Two questions about a syntax node and a macro expansion.

    * `aligns r x n`: does the node begin where some run of the expansion begins
      and end where some run, possibly another, ends?
    * `spelledFrom r ts n`: does the node reach exactly from the first to the
      last of the given tokens, with all of them spelled inside?

  Both see locations only through the resolver, and neither holds of a node
  without a span. `aligns_iff` and `spelledFrom_iff` state what they decide.

  A matcher is one of the two questions, bound to a resolver and to what it asks
  about. It is applied to single nodes (`accepts`) or to lists of them
  (`select`); `Survey` collects the answers for a list of nodes.
-/

import MacroSpan.Expansion

namespace MacroSpan

/-- Whether the node's span begins and ends on edges of the expansion. The two
    edges are independent of each other: a node may begin with an argument and
    end with the definition. -/
def aligns (r : Resolver) (x : Expansion) (n : Node) : Bool :=
  match n.span? r with
  | some s => x.hasEdgeAt r .first s.first && x.hasEdgeAt r .last s.last
  | none => false

/-- Whether a span reaches from the first to the last of a list of tokens and
    holds all of them. No span does for the empty list. -/
def Span.isHull (r : Resolver) (ts : List Token) (s : Span) : Bool :=
  match ts.head?, ts.getLast? with
  | some a, some b =>
    r a.location == some s.first && r b.location == some s.last &&
      ts.all fun t => (r t.location).any fun p => decide (p ∈ s)
  | _, _ => false

/-- Whether the node's span is exactly the span of the tokens. -/
def spelledFrom (r : Resolver) (ts : List Token) (n : Node) : Bool :=
  (n.span? r).any (Span.isHull r ts)

/-! ## What the questions decide -/

/-- A node aligns if both ends of its span are edges of the expansion. -/
theorem aligns_iff {r : Resolver} {x : Expansion} {n : Node} :
    aligns r x n = true ↔
      ∃ s, n.span? r = some s ∧ ∀ e, x.hasEdgeAt r e (s.edge e) = true := by
  simp only [Edge.forall_iff, Span.edge_first, Span.edge_last]
  unfold aligns
  cases n.span? r <;> simp

/-- A span is the hull of a list of tokens if the token at either edge of the list is
    spelled at that edge of the span, and all tokens are spelled inside. -/
theorem Span.isHull_iff {r : Resolver} {ts : List Token} {s : Span} :
    s.isHull r ts = true ↔
      (∀ e : Edge, ∃ t, e.of? ts = some t ∧ r t.location = some (s.edge e)) ∧
        ∀ t ∈ ts, ∃ p, r t.location = some p ∧ p ∈ s := by
  simp only [Edge.forall_iff, Edge.of?, edge_first, edge_last]
  unfold isHull
  cases ts.head? <;> cases ts.getLast? <;> simp [Option.any_eq_true]

/-- A node is spelled from tokens if its span is their hull. -/
theorem spelledFrom_iff {r : Resolver} {ts : List Token} {n : Node} :
    spelledFrom r ts n = true ↔ ∃ s, n.span? r = some s ∧ s.isHull r ts = true := by
  simp [spelledFrom, Option.any_eq_true]

/-- Nothing is spelled from no tokens. -/
@[simp] theorem spelledFrom_nil (r : Resolver) (n : Node) : spelledFrom r [] n = false := by
  unfold spelledFrom
  cases n.span? r <;> rfl

/-! ## Matchers -/

/-- A question that can be put to any node. -/
inductive Matcher where
  /-- Does the node align with the expansion? -/
  | aligned (resolver : Resolver) (expansion : Expansion)
  /-- Is the node spelled from the tokens? -/
  | spelled (resolver : Resolver) (tokens : List Token)

namespace Matcher

/-- The resolver that a matcher is bound to. -/
def resolver : Matcher → Resolver
  | aligned r _ | spelled r _ => r

/-- The answer for one node. -/
def accepts : Matcher → Node → Bool
  | aligned r x, n => aligns r x n
  | spelled r ts, n => spelledFrom r ts n

/-- Keeps the items whose node is accepted, in order. -/
def selectBy {α : Type} (m : Matcher) (node : α → Node) (items : List α) : List α :=
  items.filter fun a => m.accepts (node a)

/-- Keeps the accepted nodes, in order. -/
def select (m : Matcher) (nodes : List Node) : List Node := m.selectBy id nodes

/-- The accepted nodes together with their places in the list. -/
def selectIdx (m : Matcher) (nodes : List Node) : List (Node × Nat) :=
  m.selectBy Prod.fst nodes.zipIdx

@[simp] theorem accepts_aligned (r : Resolver) (x : Expansion) (n : Node) :
    (aligned r x).accepts n = aligns r x n := rfl

@[simp] theorem accepts_spelled (r : Resolver) (ts : List Token) (n : Node) :
    (spelled r ts).accepts n = spelledFrom r ts n := rfl

theorem select_eq_filter (m : Matcher) (nodes : List Node) :
    m.select nodes = nodes.filter m.accepts := rfl

theorem mem_select {m : Matcher} {nodes : List Node} {n : Node} :
    n ∈ m.select nodes ↔ n ∈ nodes ∧ m.accepts n = true := List.mem_filter

theorem mem_selectIdx {m : Matcher} {nodes : List Node} {n : Node} {i : Nat} :
    (n, i) ∈ m.selectIdx nodes ↔ nodes[i]? = some n ∧ m.accepts n = true := by
  simp [selectIdx, selectBy, List.mem_zipIdx_iff_getElem?]

/-- Forgetting the places gives the selection. -/
theorem map_fst_selectIdx (m : Matcher) (nodes : List Node) :
    (m.selectIdx nodes).map Prod.fst = m.select nodes := by
  have h := List.filter_map (f := Prod.fst) (p := m.accepts) (l := nodes.zipIdx)
  rw [List.zipIdx_map_fst] at h
  exact h.symm

end Matcher

/-! ## Surveys -/

/-- What is known about each node of a list under one question. -/
structure Survey where
  /-- The answer for each node, asked directly. -/
  verdicts : List Bool
  /-- The answer for each node, asked through the matcher. -/
  accepted : List Bool
  /-- Place and kind of each selected node. -/
  selected : List (Nat × Kind)
  /-- The span of each node. -/
  spans : List (Option Span)
deriving DecidableEq, Inhabited, Repr

namespace Survey

/-- Puts a matcher and the predicate it stands for to each node of a list. -/
def ask (m : Matcher) (predicate : Node → Bool) (nodes : List Node) : Survey where
  verdicts := nodes.map predicate
  accepted := nodes.map m.accepts
  selected := (m.selectIdx nodes).map fun (n, i) => (i, n.kind)
  spans := nodes.map (Node.span? m.resolver)

/-- Which nodes align with an expansion. -/
def aligned (r : Resolver) (x : Expansion) : List Node → Survey :=
  ask (.aligned r x) (aligns r x)

/-- Which nodes are spelled from a list of tokens. -/
def spelled (r : Resolver) (ts : List Token) : List Node → Survey :=
  ask (.spelled r ts) (spelledFrom r ts)

end Survey

end MacroSpan
