import SortTrace.Proofs.Script.Masked

/-!
Walks over masked trees. The outlines of a tree and of its masked tree are paired node by node, so a walk
that stops at the same nodes goes the same way in both.
-/

namespace SortTrace.Script

mutual

inductive Outline.Pairs (R : Node → Node → Prop) : Outline → Outline → Prop
  | mk {n n' : Node} {below below' : List Outline} :
      R n n' → Outline.AllPairs R below below' → Outline.Pairs R (.mk n below) (.mk n' below')

inductive Outline.AllPairs (R : Node → Node → Prop) : List Outline → List Outline → Prop
  | nil : Outline.AllPairs R [] []
  | cons {o o' : Outline} {rest rest' : List Outline} : Outline.Pairs R o o' →
      Outline.AllPairs R rest rest' → Outline.AllPairs R (o :: rest) (o' :: rest')

end

namespace Outline

variable {R : Node → Node → Prop} {stop : Node → Bool} {o o' : Outline}

theorem Pairs.node (pairs : o.Pairs R o') : R o.node o'.node := by
  cases pairs with
  | mk related _ => exact related

theorem AllPairs.append {first first' rest rest' : List Outline} (one : AllPairs R first first')
    (two : AllPairs R rest rest') : AllPairs R (first ++ rest) (first' ++ rest') := by
  induction first generalizing first' with
  | nil =>
    cases one
    exact two
  | cons o first ih =>
    cases one with
    | cons here others => exact .cons here (ih others)

def Respects (R : Node → Node → Prop) (stop : Node → Bool) : Prop :=
  ∀ n n' : Node, R n n' → stop n' = stop n

mutual

theorem Pairs.walk (same : Respects R stop) : ∀ {o o' : Outline}, o.Pairs R o' →
    List.Forall₂ (Pairs R) (o.walk stop) (o'.walk stop)
  | .mk n below, .mk n' below', .mk related pairs => by
    simp only [Outline.walk, same n n' related]
    refine .cons (.mk related pairs) ?_
    split
    · exact .nil
    · exact AllPairs.walkAll same pairs

theorem AllPairs.walkAll (same : Respects R stop) : ∀ {os os' : List Outline}, AllPairs R os os' →
    List.Forall₂ (Pairs R) (walkAll stop os) (walkAll stop os')
  | [], [], .nil => .nil
  | _ :: _, _ :: _, .cons here others => by
    rw [Outline.walkAll, Outline.walkAll]
    exact List.rel_append (Pairs.walk same here) (AllPairs.walkAll same others)

end

theorem forall₂_nodes {os os' : List Outline} (pairs : List.Forall₂ (Pairs R) os os') :
    List.Forall₂ R (os.map node) (os'.map node) := by
  rw [List.forall₂_map_left_iff, List.forall₂_map_right_iff]
  exact pairs.imp fun _ _ => Pairs.node

theorem Pairs.nodes (same : Respects R stop) (pairs : o.Pairs R o') :
    List.Forall₂ R (o.nodes stop) (o'.nodes stop) := forall₂_nodes (pairs.walk same)

end Outline

theorem forall₂_takeWhile {α : Type} {R : α → α → Prop} {keep : α → Bool}
    (same : ∀ x y, R x y → keep y = keep x) {xs ys : List α} (related : List.Forall₂ R xs ys) :
    List.Forall₂ R (xs.takeWhile keep) (ys.takeWhile keep) := by
  induction related with
  | nil => exact .nil
  | cons here _ ih =>
    rw [List.takeWhile_cons, List.takeWhile_cons, same _ _ here]
    split
    · exact .cons here ih
    · exact .nil

theorem forall₂_dropWhile {α : Type} {R : α → α → Prop} {pass : α → Bool}
    (same : ∀ x y, R x y → pass y = pass x) {xs ys : List α} (related : List.Forall₂ R xs ys) :
    List.Forall₂ R (xs.dropWhile pass) (ys.dropWhile pass) := by
  induction related with
  | nil => exact .nil
  | cons here others ih =>
    rw [List.dropWhile_cons, List.dropWhile_cons, same _ _ here]
    split
    · exact ih
    · exact .cons here others

theorem Outline.Pairs.aroundLoop {R : Node → Node → Prop} {stop : Node → Bool} {o o' : Outline}
    (same : Respects R stop) (loops : Respects R Node.isLoop) (pairs : o.Pairs R o') :
    List.Forall₂ R (o.aroundLoop stop).1 (o'.aroundLoop stop).1 ∧
      List.Forall₂ R (o.aroundLoop stop).2 (o'.aroundLoop stop).2 := by
  have outside (x y : Outline) (paired : x.Pairs R y) : (!y.node.isLoop) = !x.node.isLoop := by
    rw [loops _ _ paired.node]
  have walks := pairs.walk same
  have before := forall₂_takeWhile outside walks
  have behind := forall₂_dropWhile outside walks
  unfold Outline.aroundLoop
  dsimp only
  generalize (o.walk stop).dropWhile _ = rest at behind
  generalize (o'.walk stop).dropWhile _ = rest' at behind
  cases behind with
  | nil => exact ⟨forall₂_nodes before, .nil⟩
  | cons here others =>
    dsimp only
    rw [(here.walk same).length_eq]
    exact ⟨forall₂_nodes before, forall₂_nodes (List.forall₂_drop _ others)⟩

/-- An expression that does nothing to an array by itself, whatever it is made of. -/
def Expr.Inert : Expr → Prop
  | .number .. | .unary .. | .array .. => True
  | _ => False

inductive Node.Masks : Node → Node → Prop
  | program (p : Program) : Masks (.program p) (.program p.masked)
  | stmt (s : Stmt) : Masks (.stmt s) (.stmt s.masked)
  | varDecl (d : VarDecl) : Masks (.varDecl d) (.varDecl d.masked)
  | declarator (d : Declarator) : Masks (.declarator d) (.declarator d.masked)
  | func (f : Func) : Masks (.func f) (.func f.masked)
  | loop (l : Loop) : Masks (.loop l) (.loop l.masked)
  | expr (e : Expr) : Masks (.expr e) (.expr e.masked)
  /-- A list that a variable starts with, or a number in it. -/
  | inert {e e' : Expr} : e.Inert → e'.Inert → Masks (.expr e) (.expr e')

abbrev Outline.Masks : Outline → Outline → Prop := Outline.Pairs Node.Masks

theorem Expr.outline_zeroed (e : Expr) (masks : e.outline.Masks e.masked.outline) :
    e.outline.Masks e.masked.zeroed.outline := by
  cases e with
  | number v _ => exact .mk (.inert trivial trivial) .nil
  | unary op operand _ =>
    cases operand with
    | number v _ =>
      exact .mk (.inert trivial trivial) (.cons (.mk (.inert trivial trivial) .nil) .nil)
    | _ => exact masks
  | _ => exact masks

theorem Expr.outlines_zeroed (es : List Expr)
    (masks : Outline.AllPairs Node.Masks (Expr.outlines es) (Expr.outlines (Expr.maskeds es))) :
    Outline.AllPairs Node.Masks (Expr.outlines es)
      (Expr.outlines ((Expr.maskeds es).map Expr.zeroed)) := by
  induction es with
  | nil => exact masks
  | cons e rest ih =>
    cases masks with
    | cons here others => exact .cons (e.outline_zeroed here) (ih others)

theorem Expr.outline_zeroedItems (e : Expr) (masks : e.outline.Masks e.masked.outline) :
    e.outline.Masks e.masked.zeroedItems.outline := by
  cases e with
  | array items _ =>
    cases masks with
    | mk _ below => exact .mk (.inert trivial trivial) (Expr.outlines_zeroed items below)
  | _ => exact masks

mutual

theorem Expr.outline_masked : ∀ e : Expr, e.outline.Masks e.masked.outline
  | .number .. | .str .. | .template .. | .bool .. | .null _ | .ident .. => .mk (.expr _) .nil
  | .array items _ => .mk (.expr _) (Expr.outlines_masked items)
  | .unary _ e _ | .update _ _ e _ | .member e _ _ =>
    .mk (.expr _) (.cons e.outline_masked .nil)
  | .binary l _ r _ | .assign _ l r _ | .index l r _ =>
    .mk (.expr _) (.cons l.outline_masked (.cons r.outline_masked .nil))
  | .conditional t c a _ =>
    .mk (.expr _) (.cons t.outline_masked (.cons c.outline_masked (.cons a.outline_masked .nil)))
  | .call f args _ => .mk (.expr _) (.cons f.outline_masked (Expr.outlines_masked args))
  | .func f _ => .mk (.expr _) (.cons f.outline_masked .nil)

theorem Expr.outlines_masked : ∀ es : List Expr,
    Outline.AllPairs Node.Masks (Expr.outlines es) (Expr.outlines (Expr.maskeds es))
  | [] => .nil
  | e :: rest => .cons e.outline_masked (Expr.outlines_masked rest)

theorem Func.outline_masked : ∀ f : Func, f.outline.Masks f.masked.outline
  | .block _ _ body _ | .arrowBlock _ body _ => .mk (.func _) (Stmt.outlines_masked body)
  | .arrowValue _ value _ => .mk (.func _) (.cons value.outline_masked .nil)

theorem Stmt.outline_masked : ∀ s : Stmt, s.outline.Masks s.masked.outline
  | .varDecl d _ => .mk (.stmt _) (.cons d.outline_masked .nil)
  | .func f _ => .mk (.stmt _) (.cons f.outline_masked .nil)
  | .ifElse t c none _ => .mk (.stmt _) (.cons t.outline_masked (.cons c.outline_masked .nil))
  | .ifElse t c (some a) _ =>
    .mk (.stmt _) (.cons t.outline_masked (.cons c.outline_masked (.cons a.outline_masked .nil)))
  | .loop l _ => .mk (.stmt _) (.cons l.outline_masked .nil)
  | .block body _ => .mk (.stmt _) (Stmt.outlines_masked body)
  | .ret none _ | .brk _ | .cont _ | .empty _ => .mk (.stmt _) .nil
  | .ret (some e) _ | .expr e _ => .mk (.stmt _) (.cons e.outline_masked .nil)

theorem Stmt.outlines_masked : ∀ ss : List Stmt,
    Outline.AllPairs Node.Masks (Stmt.outlines ss) (Stmt.outlines (Stmt.maskeds ss))
  | [] => .nil
  | s :: rest => .cons s.outline_masked (Stmt.outlines_masked rest)

theorem VarDecl.outline_masked : ∀ d : VarDecl, d.outline.Masks d.masked.outline
  | .mk _ ds _ => .mk (.varDecl _) (Declarator.outlines_masked ds)

theorem Declarator.outline_masked : ∀ d : Declarator, d.outline.Masks d.masked.outline
  | .mk _ none _ => .mk (.declarator _) .nil
  | .mk _ (some e) _ =>
    .mk (.declarator _) (.cons (e.outline_zeroedItems e.outline_masked) .nil)

theorem Declarator.outlines_masked : ∀ ds : List Declarator,
    Outline.AllPairs Node.Masks (Declarator.outlines ds)
      (Declarator.outlines (Declarator.maskeds ds))
  | [] => .nil
  | d :: rest => .cons d.outline_masked (Declarator.outlines_masked rest)

theorem Loop.outline_masked : ∀ l : Loop, l.outline.Masks l.masked.outline
  | .forLoop init test update body _ =>
    .mk (.loop _) (init.outlines_masked.append ((Expr.optionOutlines_masked test).append
      ((Expr.optionOutlines_masked update).append (.cons body.outline_masked .nil))))
  | .forEach _ _ e _ body _ | .whileLoop e body _ =>
    .mk (.loop _) (.cons e.outline_masked (.cons body.outline_masked .nil))
  | .doWhile body e _ => .mk (.loop _) (.cons body.outline_masked (.cons e.outline_masked .nil))

theorem Expr.optionOutlines_masked : ∀ e : Option Expr,
    Outline.AllPairs Node.Masks (Expr.optionOutlines e) (Expr.optionOutlines (Expr.maskedOption e))
  | none => .nil
  | some e => .cons e.outline_masked .nil

theorem ForInit.outlines_masked : ∀ init : ForInit,
    Outline.AllPairs Node.Masks init.outlines init.masked.outlines
  | .none => .nil
  | .varDecl d => .cons d.outline_masked .nil
  | .expr e => .cons e.outline_masked .nil

end

theorem Program.outline_masked (p : Program) : p.outline.Masks p.masked.outline :=
  .mk (.program p) (Stmt.outlines_masked p.body)

theorem Node.Masks.isFunc_eq : Outline.Respects Node.Masks Node.isFunc := by
  rintro _ _ ⟨_⟩ <;> rfl

theorem Node.Masks.isLoop_eq : Outline.Respects Node.Masks Node.isLoop := by
  rintro _ _ ⟨_⟩ <;> rfl

theorem Outline.Masks.loops_eq {o o' : Outline} (masks : o.Masks o') :
    o'.loops = o.loops.map Loop.masked := by
  have related := masks.nodes Node.Masks.isFunc_eq
  rw [Outline.loops, Outline.loops]
  generalize o.nodes Node.isFunc = ns at related
  generalize o'.nodes Node.isFunc = ns' at related
  induction related with
  | nil => rfl
  | cons here _ ih => cases here <;> simp [List.filterMap_cons, Node.loop?, ih]

theorem Program.declarators_masked (p : Program) :
    p.masked.declarators = p.declarators.map Declarator.masked := by
  have related : List.Forall₂ Node.Masks p.outline.allNodes p.masked.outline.allNodes :=
    p.outline_masked.nodes fun _ _ _ => rfl
  rw [declarators, declarators]
  generalize p.outline.allNodes = ns at related
  generalize p.masked.outline.allNodes = ns' at related
  induction related with
  | nil => rfl
  | cons here _ ih => cases here <;> simp [List.filterMap_cons, Node.declarator?, ih]

end SortTrace.Script
