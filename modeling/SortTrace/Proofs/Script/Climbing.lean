import SortTrace.Proofs.Results
import SortTrace.Proofs.Script.Phrase

/-!
Operators and their operands as a tree: the rule for operands joined by operators builds the one tree
in which looser operators stand above tighter ones and equal ones group to the left.
-/

namespace SortTrace.Script

/-- Operands joined by operators. What an operand is made of does not count. -/
inductive OperatorTree where
  | leaf (operand : Expr)
  | node (lhs : OperatorTree) (op : BinOp) (rhs : OperatorTree)

namespace OperatorTree

def leaves : OperatorTree → List Expr
  | leaf operand => [operand]
  | node lhs _ rhs => lhs.leaves ++ rhs.leaves

def operators : OperatorTree → List BinOp
  | leaf _ => []
  | node lhs op rhs => lhs.operators ++ op :: rhs.operators

def expr : OperatorTree → Expr
  | leaf operand => operand
  | node lhs op rhs => .binary lhs.expr op rhs.expr (lhs.expr.span.cover rhs.expr.span)

def top? : OperatorTree → Option Nat
  | leaf _ => none
  | node _ op _ => some op.precedence

/-- The operator on top of a left operand binds at least as tightly as the one above it, the one on
top of a right operand tighter. -/
def Graded : OperatorTree → Prop
  | leaf _ => True
  | node lhs op rhs => (∀ p ∈ lhs.top?, op.precedence ≤ p) ∧ (∀ p ∈ rhs.top?, op.precedence < p) ∧
      lhs.Graded ∧ rhs.Graded

def first : OperatorTree → Expr
  | leaf operand => operand
  | node lhs _ _ => lhs.first

def links : OperatorTree → List (BinOp × Expr)
  | leaf _ => []
  | node lhs op rhs => lhs.links ++ (op, rhs.first) :: rhs.links

theorem leaves_eq (t : OperatorTree) : t.leaves = t.first :: t.links.map Prod.snd := by
  induction t with
  | leaf operand => rfl
  | node lhs op rhs ihl ihr => simp [leaves, first, links, ihl, ihr]

theorem operators_eq (t : OperatorTree) : t.operators = t.links.map Prod.fst := by
  induction t with
  | leaf operand => rfl
  | node lhs op rhs ihl ihr => simp [operators, links, ihl, ihr]

/-- Puts an operator and an operand behind a tree: below all looser operators on its right edge. -/
def push : OperatorTree → BinOp × Expr → OperatorTree
  | leaf operand, link => node (leaf operand) link.1 (leaf link.2)
  | node lhs op rhs, link =>
    if op.precedence < link.1.precedence then node lhs op (rhs.push link)
    else node (node lhs op rhs) link.1 (leaf link.2)

theorem push_of_top {t : OperatorTree} {op : BinOp} (above : ∀ p ∈ t.top?, op.precedence ≤ p)
    (operand : Expr) : t.push (op, operand) = node t op (leaf operand) := by
  cases t with
  | leaf _ => rfl
  | node lhs op' rhs => exact if_neg (Nat.not_lt.mpr (above _ rfl))

theorem foldl_push_node (lhs : OperatorTree) {op : BinOp} {links : List (BinOp × Expr)}
    (tighter : ∀ link ∈ links, op.precedence < link.1.precedence) (rhs : OperatorTree) :
    links.foldl push (node lhs op rhs) = node lhs op (links.foldl push rhs) := by
  induction links generalizing rhs with
  | nil => rfl
  | cons link rest ih =>
    obtain ⟨here, further⟩ := List.forall_mem_cons.mp tighter
    have pushed : (node lhs op rhs).push link = node lhs op (rhs.push link) := if_pos here
    rw [List.foldl_cons, pushed, ih further, List.foldl_cons]

theorem Graded.top_le {t : OperatorTree} (graded : t.Graded) :
    ∀ p ∈ t.top?, ∀ link ∈ t.links, p ≤ link.1.precedence := by
  induction t with
  | leaf operand => exact fun p none => by cases none
  | node lhs op rhs ihl ihr =>
    obtain ⟨left, right, gradedLeft, gradedRight⟩ := graded
    rintro _ ⟨⟩ link member
    -- Below an operand without operators there is nothing to compare with.
    have below {t : OperatorTree} (inside : link ∈ t.links) : ∃ p, p ∈ t.top? := by
      cases t with
      | leaf _ => cases inside
      | node _ op _ => exact ⟨op.precedence, rfl⟩
    rcases List.mem_append.mp member with inside | member
    · obtain ⟨p, top⟩ := below inside
      exact Nat.le_trans (left p top) (ihl gradedLeft p top link inside)
    · rcases List.mem_cons.mp member with rfl | inside
      · exact Nat.le_refl _
      · obtain ⟨p, top⟩ := below inside
        exact Nat.le_trans (Nat.le_of_lt (right p top)) (ihr gradedRight p top link inside)

/-- A graded tree grows out of its first operand by pushing the others one after the other. -/
theorem Graded.foldl_push {t : OperatorTree} (graded : t.Graded) :
    t.links.foldl push (leaf t.first) = t := by
  induction t with
  | leaf operand => rfl
  | node lhs op rhs ihl ihr =>
    obtain ⟨left, right, gradedLeft, gradedRight⟩ := graded
    have tighter : ∀ link ∈ rhs.links, op.precedence < link.1.precedence := by
      intro link inside
      cases rhs with
      | leaf _ => cases inside
      | node l op' r => exact Nat.lt_of_lt_of_le (right _ rfl) (gradedRight.top_le _ rfl link inside)
    rw [links, first, List.foldl_append, ihl gradedLeft, List.foldl_cons, push_of_top left,
      foldl_push_node lhs tighter, ihr gradedRight]

theorem Graded.unique {t t' : OperatorTree} (graded : t.Graded) (graded' : t'.Graded)
    (leaves : t.leaves = t'.leaves) (operators : t.operators = t'.operators) : t = t' := by
  rw [leaves_eq, leaves_eq] at leaves
  rw [operators_eq, operators_eq] at operators
  obtain ⟨first, operands⟩ := List.cons.inj leaves
  have links : t.links = t'.links := (List.zip_of_prod operators operands).trans
    (List.zip_of_prod rfl rfl).symm
  rw [← graded.foldl_push, ← graded'.foldl_push, first, links]

end OperatorTree

def Cursor.Operand (c : Cursor) (operand : Expr) (d : Cursor) : Prop :=
  ∃ fuel, Grammar.unary fuel c = .ok (operand, d)

/-- From one cursor to another: operators, each with an operand behind it. -/
inductive Cursor.Links : Cursor → List (BinOp × Expr) → Cursor → Prop
  | nil (c : Cursor) : Links c [] c
  | cons {c d e : Cursor} {op : BinOp} {operand : Expr} {rest : List (BinOp × Expr)} :
      c.binOp? = some op → c.advance.Operand operand d → Links d rest e →
      Links c ((op, operand) :: rest) e

theorem Cursor.Links.append {c d e : Cursor} {links others : List (BinOp × Expr)}
    (first : c.Links links d) (further : d.Links others e) : c.Links (links ++ others) e := by
  induction first with
  | nil c => exact further
  | cons next operand _ ih => exact .cons next operand (ih further)

namespace Grammar

/-- A tree of operators that bind at least as tightly as `least`; the next one binds looser. -/
structure Climbed (least : Nat) (t : OperatorTree) (d : Cursor) : Prop where
  graded : t.Graded
  top : ∀ p ∈ t.top?, least ≤ p
  next {op : BinOp} : d.binOp? = some op → op.precedence < least

/-- The two rules together: one operand with what follows it, and what follows a tree. -/
theorem climbs (fuel : Nat) :
    (∀ least c e d, binary fuel least c = .ok (e, d) →
      ∃ t c', c.Operand t.first c' ∧ c'.Links t.links d ∧ Climbed least t d ∧ t.expr = e) ∧
    (∀ least (t : OperatorTree) c e d, t.Graded → (∀ p ∈ t.top?, least ≤ p) →
      (∀ op, c.binOp? = some op → ∀ p ∈ t.top?, op.precedence ≤ p) →
      binaryTail fuel least t.expr c = .ok (e, d) →
      ∃ t' rest, t'.first = t.first ∧ t'.links = t.links ++ rest ∧ c.Links rest d ∧
        Climbed least t' d ∧ t'.expr = e) := by
  induction fuel with
  | zero =>
    constructor
    · intro _ _ _ _ read
      cases read
    · intro _ _ _ _ _ _ _ _ read
      cases read
  | succ fuel ih =>
    obtain ⟨operands, tails⟩ := ih
    refine ⟨fun least c e d read => ?_, fun least t c e d graded top loose read => ?_⟩
    · obtain ⟨⟨operand, c'⟩, first, rest⟩ := ok_of_bind read
      obtain ⟨t, links, start, split, behind, climbed, whole⟩ :=
        tails least (.leaf operand) c' e d trivial (by simp [OperatorTree.top?])
          (by simp [OperatorTree.top?]) rest
      refine ⟨t, c', ⟨fuel, by rw [start]; exact first⟩, ?_, climbed, whole⟩
      rw [split]
      exact behind
    · rw [binaryTail] at read
      cases next : c.binOp? with
      | none =>
        rw [next] at read
        cases read
        exact ⟨t, [], rfl, (List.append_nil _).symm, .nil c, ⟨graded, top, by simp [next]⟩, rfl⟩
      | some op =>
        rw [next] at read
        dsimp only at read
        split at read
        · rename_i looser
          cases read
          refine ⟨t, [], rfl, (List.append_nil _).symm, .nil c, ⟨graded, top, fun found => ?_⟩, rfl⟩
          rw [next] at found
          rwa [← Option.some.inj found]
        · rename_i tight
          obtain ⟨⟨rhs, c'⟩, right, rest⟩ := ok_of_bind read
          obtain ⟨r, d', operand, inner, climbed, rfl⟩ := operands _ _ _ _ right
          obtain ⟨t', links, start, split, behind, whole⟩ :=
            tails least (.node t op r) c' e d
              ⟨loose op next, climbed.top, graded, climbed.graded⟩
              (by rintro _ ⟨⟩; exact Nat.not_lt.mp tight)
              (by rintro op' found _ ⟨⟩; exact Nat.lt_succ_iff.mp (climbed.next found)) rest
          refine ⟨t', (op, r.first) :: (r.links ++ links), start, ?_, ?_, whole⟩
          · rw [split, OperatorTree.links, List.append_assoc]
            rfl
          · exact .cons next operand (inner.append behind)

end Grammar

/-- Operands joined by operators are read up to the first token that is no operator, as the tree with
these operands and operators in which looser operators stand above tighter ones and equal ones group
to the left. There is only one such tree. -/
theorem binary_climbs {fuel : Nat} {c d : Cursor} {e : Expr}
    (read : Grammar.binary fuel 1 c = .ok (e, d)) :
    ∃ first rest c', c.Operand first c' ∧ c'.Links rest d ∧ d.binOp? = none ∧
      ∃ t : OperatorTree, t.expr = e ∧ t.leaves = first :: rest.map Prod.snd ∧
        t.operators = rest.map Prod.fst ∧ t.Graded ∧
        ∀ t' : OperatorTree, t'.leaves = first :: rest.map Prod.snd →
          t'.operators = rest.map Prod.fst → t'.Graded → t' = t := by
  obtain ⟨t, c', operand, links, climbed, whole⟩ := (Grammar.climbs fuel).1 1 c e d read
  have last : d.binOp? = none := by
    refine Option.eq_none_iff_forall_ne_some.mpr fun op next => ?_
    have loose := climbed.next next
    have bound := (Grammar.precedence_bounds op).1
    omega
  refine ⟨t.first, t.links, c', operand, links, last, t, whole, t.leaves_eq, t.operators_eq,
    climbed.graded, fun t' leaves operators graded => ?_⟩
  exact graded.unique climbed.graded (leaves.trans t.leaves_eq.symm)
    (operators.trans t.operators_eq.symm)

def differenceTokens : Cursor :=
  .ofKinds [.ident "a", .mark .minus, .ident "b", .mark .star, .ident "c", .mark .minus, .ident "d",
    .eof]

def difference : Expr :=
  .binary (.binary (.ident "a" {}) .sub (.binary (.ident "b" {}) .mul (.ident "c" {}) {}) {}) .sub
    (.ident "d" {}) {}

theorem binary_climbs_difference :
    Grammar.binary 20 1 differenceTokens = .ok (difference, .ofKinds [.eof]) ∧
    ∃ first rest c', differenceTokens.Operand first c' ∧ c'.Links rest (.ofKinds [.eof]) ∧
      ∃ t : OperatorTree, t.expr = difference ∧ t.leaves = first :: rest.map Prod.snd ∧
        t.operators = rest.map Prod.fst ∧ t.Graded := by
  have read : Grammar.binary 20 1 differenceTokens = .ok (difference, .ofKinds [.eof]) := rfl
  obtain ⟨first, rest, c', operand, links, -, t, whole, leaves, operators, graded, -⟩ :=
    binary_climbs read
  exact ⟨read, first, rest, c', operand, links, t, whole, leaves, operators, graded⟩

end SortTrace.Script
