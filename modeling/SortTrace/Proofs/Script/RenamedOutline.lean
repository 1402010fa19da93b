import Mathlib.Data.List.Basic
import SortTrace.Proofs.Script.FirstLoop
import SortTrace.Proofs.Script.Renamed
import SortTrace.Proofs.Script.ShellOutline

/-!
Walks over renamed trees: the outline of a renamed tree is the renamed outline, and a walk that stops
at the same nodes meets the same nodes under their other names.
-/

namespace SortTrace.Script

section

variable (g : String → String)

def Node.renamed : Node → Node
  | program p => program (p.renamed g)
  | stmt s => stmt (s.renamed g)
  | varDecl d => varDecl (d.renamed g)
  | declarator d => declarator (d.renamed g)
  | func f => func (f.renamed g)
  | loop l => loop (l.renamed g)
  | expr e => expr (e.renamed g)

namespace Node

@[simp] theorem expr?_renamed (n : Node) : (n.renamed g).expr? = n.expr?.map (Expr.renamed g) := by
  cases n <;> rfl

@[simp] theorem loop?_renamed (n : Node) : (n.renamed g).loop? = n.loop?.map (Loop.renamed g) := by
  cases n <;> rfl

@[simp] theorem declarator?_renamed (n : Node) :
    (n.renamed g).declarator? = n.declarator?.map (Declarator.renamed g) := by
  cases n <;> rfl

@[simp] theorem isFunc_renamed (n : Node) : (n.renamed g).isFunc = n.isFunc := by
  cases n <;> rfl

@[simp] theorem isLoop_renamed (n : Node) : (n.renamed g).isLoop = n.isLoop := by
  cases n <;> rfl

end Node

mutual

def Outline.renamed : Outline → Outline
  | .mk n below => .mk (n.renamed g) (Outline.renameds below)

def Outline.renameds : List Outline → List Outline
  | [] => []
  | o :: rest => o.renamed :: Outline.renameds rest

end

@[simp] theorem Outline.renameds_eq_map (os : List Outline) :
    Outline.renameds g os = os.map (Outline.renamed g) := by
  induction os with
  | nil => rfl
  | cons o rest ih => simp [Outline.renameds, ih]

@[simp] theorem Outline.node_renamed (o : Outline) : (o.renamed g).node = o.node.renamed g := by
  cases o
  rfl

mutual

@[simp] theorem Expr.outline_renamed : ∀ e : Expr, (e.renamed g).outline = e.outline.renamed g
  | .number .. | .str .. | .template .. | .bool .. | .null _ | .ident .. => rfl
  | .array items _ => by
    simp only [Expr.outline, Expr.renamed, Outline.renamed, Node.renamed,
      Expr.outlines_renamed items]
  | .unary _ e _ | .update _ _ e _ | .member e _ _ => by
    simp only [Expr.outline, Expr.renamed, Outline.renamed, Outline.renameds, Node.renamed,
      e.outline_renamed]
  | .binary l _ r _ | .assign _ l r _ | .index l r _ => by
    simp only [Expr.outline, Expr.renamed, Outline.renamed, Outline.renameds, Node.renamed,
      l.outline_renamed, r.outline_renamed]
  | .conditional t c a _ => by
    simp only [Expr.outline, Expr.renamed, Outline.renamed, Outline.renameds, Node.renamed,
      t.outline_renamed, c.outline_renamed, a.outline_renamed]
  | .call f args _ => by
    simp only [Expr.outline, Expr.renamed, Outline.renamed, Outline.renameds, Node.renamed,
      f.outline_renamed, Expr.outlines_renamed args]
  | .func f _ => by
    simp only [Expr.outline, Expr.renamed, Outline.renamed, Outline.renameds, Node.renamed,
      f.outline_renamed]

theorem Expr.outlines_renamed : ∀ es : List Expr,
    Expr.outlines (Expr.renameds g es) = Outline.renameds g (Expr.outlines es)
  | [] => rfl
  | e :: rest => by
    simp only [Expr.outlines, Expr.renameds, Outline.renameds, e.outline_renamed,
      Expr.outlines_renamed rest]

@[simp] theorem Func.outline_renamed : ∀ f : Func, (f.renamed g).outline = f.outline.renamed g
  | .block _ _ body _ | .arrowBlock _ body _ => by
    simp only [Func.outline, Func.renamed, Outline.renamed, Node.renamed,
      Stmt.outlines_renamed body]
  | .arrowValue _ value _ => by
    simp only [Func.outline, Func.renamed, Outline.renamed, Outline.renameds, Node.renamed,
      value.outline_renamed]

@[simp] theorem Stmt.outline_renamed : ∀ s : Stmt, (s.renamed g).outline = s.outline.renamed g
  | .varDecl d _ => by
    simp only [Stmt.outline, Stmt.renamed, Outline.renamed, Outline.renameds, Node.renamed,
      d.outline_renamed]
  | .func f _ => by
    simp only [Stmt.outline, Stmt.renamed, Outline.renamed, Outline.renameds, Node.renamed,
      f.outline_renamed]
  | .ifElse t c none _ => by
    simp only [Stmt.outline, Stmt.renamed, Stmt.renamedOption, Outline.renamed, Outline.renameds,
      Node.renamed, t.outline_renamed, c.outline_renamed]
  | .ifElse t c (some a) _ => by
    simp only [Stmt.outline, Stmt.renamed, Stmt.renamedOption, Outline.renamed, Outline.renameds,
      Node.renamed, t.outline_renamed, c.outline_renamed, a.outline_renamed]
  | .loop l _ => by
    simp only [Stmt.outline, Stmt.renamed, Outline.renamed, Outline.renameds, Node.renamed,
      l.outline_renamed]
  | .block body _ => by
    simp only [Stmt.outline, Stmt.renamed, Outline.renamed, Node.renamed,
      Stmt.outlines_renamed body]
  | .ret none _ | .brk _ | .cont _ | .empty _ => rfl
  | .ret (some e) _ | .expr e _ => by
    simp only [Stmt.outline, Stmt.renamed, Expr.renamedOption, Outline.renamed, Outline.renameds,
      Node.renamed, e.outline_renamed]

theorem Stmt.outlines_renamed : ∀ ss : List Stmt,
    Stmt.outlines (Stmt.renameds g ss) = Outline.renameds g (Stmt.outlines ss)
  | [] => rfl
  | s :: rest => by
    simp only [Stmt.outlines, Stmt.renameds, Outline.renameds, s.outline_renamed,
      Stmt.outlines_renamed rest]

@[simp] theorem VarDecl.outline_renamed : ∀ d : VarDecl,
    (d.renamed g).outline = d.outline.renamed g
  | .mk _ ds _ => by
    simp only [VarDecl.outline, VarDecl.renamed, Outline.renamed, Node.renamed,
      Declarator.outlines_renamed ds]

@[simp] theorem Declarator.outline_renamed : ∀ d : Declarator,
    (d.renamed g).outline = d.outline.renamed g
  | .mk _ none _ => rfl
  | .mk _ (some e) _ => by
    simp only [Declarator.outline, Declarator.renamed, Expr.renamedOption, Outline.renamed,
      Outline.renameds, Node.renamed, e.outline_renamed]

theorem Declarator.outlines_renamed : ∀ ds : List Declarator,
    Declarator.outlines (Declarator.renameds g ds) = Outline.renameds g (Declarator.outlines ds)
  | [] => rfl
  | d :: rest => by
    simp only [Declarator.outlines, Declarator.renameds, Outline.renameds, d.outline_renamed,
      Declarator.outlines_renamed rest]

@[simp] theorem Loop.outline_renamed : ∀ l : Loop, (l.renamed g).outline = l.outline.renamed g
  | .forLoop init test update body _ => by
    simp only [Loop.outline, Loop.renamed, Outline.renamed, Node.renamed, init.outlines_renamed,
      Expr.optionOutlines_renamed test, Expr.optionOutlines_renamed update, body.outline_renamed,
      Outline.renameds_eq_map, List.map_append, List.map_cons, List.map_nil]
  | .forEach _ _ e _ body _ | .whileLoop e body _ | .doWhile body e _ => by
    simp only [Loop.outline, Loop.renamed, Outline.renamed, Outline.renameds, Node.renamed,
      e.outline_renamed, body.outline_renamed]

theorem Expr.optionOutlines_renamed : ∀ e : Option Expr,
    Expr.optionOutlines (Expr.renamedOption g e) = Outline.renameds g (Expr.optionOutlines e)
  | none => rfl
  | some e => by
    simp only [Expr.optionOutlines, Expr.renamedOption, Outline.renameds, e.outline_renamed]

theorem ForInit.outlines_renamed : ∀ init : ForInit,
    (init.renamed g).outlines = Outline.renameds g init.outlines
  | .none => rfl
  | .varDecl d => by
    simp only [ForInit.outlines, ForInit.renamed, Outline.renameds, d.outline_renamed]
  | .expr e => by
    simp only [ForInit.outlines, ForInit.renamed, Outline.renameds, e.outline_renamed]

end

@[simp] theorem Program.outline_renamed (p : Program) :
    (p.renamed g).outline = p.outline.renamed g := by
  simp only [Program.outline, Program.renamed, Outline.renamed, Node.renamed,
    Stmt.outlines_renamed]

end

/-- All nodes of the outline have the property, function bodies included. -/
inductive Outline.Every (P : Node → Prop) : Outline → Prop
  | mk {n : Node} {below : List Outline} : P n → (∀ o ∈ below, Every P o) → Every P (.mk n below)

namespace Outline

variable {P Q : Node → Prop} {o : Outline}

theorem every_mk {n : Node} {below : List Outline} :
    (mk n below).Every P ↔ P n ∧ ∀ o ∈ below, o.Every P := by
  constructor
  · rintro ⟨here, further⟩
    exact ⟨here, further⟩
  · rintro ⟨here, further⟩
    exact .mk here further

theorem mem_walkAll {stop : Node → Bool} {x : Outline} {os : List Outline} :
    x ∈ walkAll stop os ↔ ∃ o ∈ os, x ∈ o.walk stop := by
  induction os with
  | nil => simp [walkAll]
  | cons o rest ih => simp [walkAll, ih]

namespace Every

theorem here (every : o.Every P) : P o.node := by
  cases every
  assumption

theorem mono (every : o.Every P) (weaker : ∀ n, P n → Q n) : o.Every Q := by
  induction every with
  | mk here further ih => exact .mk (weaker _ here) ih

theorem walk (every : o.Every P) {stop : Node → Bool} : ∀ x ∈ o.walk stop, x.Every P := by
  induction every with
  | @mk n below here further ih =>
    intro x member
    rw [Outline.walk, List.mem_cons] at member
    rcases member with rfl | member
    · exact .mk here further
    · split at member
      · cases member
      · obtain ⟨o, inside, member⟩ := mem_walkAll.mp member
        exact ih o inside x member

theorem nodes (every : o.Every P) {stop : Node → Bool} : ∀ n ∈ o.nodes stop, P n := by
  intro n member
  obtain ⟨x, inside, rfl⟩ := List.mem_map.mp member
  exact (every.walk x inside).here

theorem around (every : o.Every P) {stop : Node → Bool} :
    (∀ n ∈ (o.aroundLoop stop).1, P n) ∧ ∀ n ∈ (o.aroundLoop stop).2, P n := by
  have part {os : List Outline} (less : os.Sublist (o.walk stop)) : ∀ n ∈ os.map node, P n := by
    intro n member
    obtain ⟨x, inside, rfl⟩ := List.mem_map.mp member
    exact (every.walk x (less.subset inside)).here
  have outside := part (List.takeWhile_sublist fun o => !o.node.isLoop)
  unfold aroundLoop
  dsimp only
  split
  · exact ⟨outside, by simp⟩
  · rename_i l rest found
    have behind : (l :: rest).Sublist (o.walk stop) := found ▸ List.dropWhile_sublist _
    exact ⟨outside, part ((List.drop_sublist _ _).trans ((List.sublist_cons_self l rest).trans behind))⟩

theorem loops (every : o.Every P) (genuine : o.Genuine) : ∀ l ∈ o.loops, l.outline.Every P :=
  fun _ member => every.walk _ (genuine.outline_mem member)

end Every

mutual

theorem every_of_walk : ∀ o : Outline, (∀ x ∈ o.walk fun _ => false, P x.node) → o.Every P
  | mk n below, all => by
    simp only [walk, Bool.false_eq_true, if_false, List.forall_mem_cons] at all
    exact .mk all.1 (every_of_walkAll below all.2)

theorem every_of_walkAll : ∀ os : List Outline, (∀ x ∈ walkAll (fun _ => false) os, P x.node) →
    ∀ o ∈ os, o.Every P
  | [], _ => by simp
  | o :: rest, all => by
    rw [walkAll, List.forall_mem_append] at all
    exact List.forall_mem_cons.mpr ⟨every_of_walk o all.1, every_of_walkAll rest all.2⟩

end

variable {g : String → String} {stop stop' : Node → Bool}

/-- At every node the second walk decides for the renamed node as the first one does for the node. -/
abbrev StopAlike (g : String → String) (stop stop' : Node → Bool) (o : Outline) : Prop :=
  o.Every fun n => stop' (n.renamed g) = stop n

theorem walk_renamed (alike : StopAlike g stop stop' o) :
    (o.renamed g).walk stop' = (o.walk stop).map (renamed g) := by
  have flat (stop : Node → Bool) (os : List Outline) :
      walkAll stop os = os.flatMap (walk stop) := by
    induction os with
    | nil => rfl
    | cons o rest ih => rw [walkAll, ih, List.flatMap_cons]
  induction alike with
  | @mk n below same further ih =>
    have others : walkAll stop' (renameds g below) = (walkAll stop below).map (renamed g) := by
      rw [flat, flat, renameds_eq_map, List.flatMap_map, List.map_flatMap]
      exact List.flatMap_congr ih
    simp only [renamed, walk, same, others, List.map_cons, apply_ite (List.map (renamed g)),
      List.map_nil]

theorem map_node_renamed (os : List Outline) :
    (os.map (renamed g)).map node = (os.map node).map (Node.renamed g) := by
  simp

theorem nodes_renamed (alike : StopAlike g stop stop' o) :
    (o.renamed g).nodes stop' = (o.nodes stop).map (Node.renamed g) := by
  rw [nodes, walk_renamed alike, map_node_renamed, nodes]

theorem aroundLoop_renamed (alike : StopAlike g stop stop' o) :
    (o.renamed g).aroundLoop stop' = ((o.aroundLoop stop).1.map (Node.renamed g),
      (o.aroundLoop stop).2.map (Node.renamed g)) := by
  have outside : (fun o : Outline => !o.node.isLoop) ∘ renamed g = fun o => !o.node.isLoop := by
    funext o
    simp
  simp only [aroundLoop, walk_renamed alike, List.takeWhile_map, List.dropWhile_map, outside]
  cases found : List.dropWhile (fun o : Outline => !o.node.isLoop) (o.walk stop) with
  | nil => simp
  | cons l rest =>
    have loop : StopAlike g stop stop' l := by
      have member : l ∈ List.dropWhile (fun o : Outline => !o.node.isLoop) (o.walk stop) := by
        rw [found]
        exact List.mem_cons_self
      exact alike.walk l ((List.dropWhile_sublist _).subset member)
    simp only [List.map_cons, walk_renamed loop, List.length_map, ← List.map_drop,
      map_node_renamed]

theorem stopAlike_of_blind (blind : ∀ n, stop' (n.renamed g) = stop n) (o : Outline) :
    StopAlike g stop stop' o :=
  every_of_walk o fun x _ => blind x.node

@[simp] theorem loops_renamed (o : Outline) :
    (o.renamed g).loops = o.loops.map (Loop.renamed g) := by
  rw [loops, nodes_renamed (stopAlike_of_blind (Node.isFunc_renamed g) o),
    filterMap_commutes _ _ (Node.loop?_renamed g), loops]

end Outline

@[simp] theorem Program.declarators_renamed (g : String → String) (p : Program) :
    (p.renamed g).declarators = p.declarators.map (Declarator.renamed g) := by
  have alike := @Outline.stopAlike_of_blind g (fun _ => false) (fun _ => false) (fun _ => rfl)
    p.outline
  rw [declarators, outline_renamed, Outline.allNodes, Outline.nodes_renamed alike,
    filterMap_commutes _ _ (Node.declarator?_renamed g)]
  rfl

end SortTrace.Script
