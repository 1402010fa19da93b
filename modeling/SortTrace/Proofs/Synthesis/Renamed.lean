import SortTrace.Proofs.Results
import SortTrace.Proofs.Script.Renamable
import SortTrace.Synthesis.Guard

/-!
Patterns, exchanges and guards of renamed trees, for the watch of the renamed array. They are the same as
long as renamed texts are the same only where texts are.
-/

namespace SortTrace

namespace Synthesis

open Script

theorem assigned?_renamed (g : String → String) (s : Stmt) :
    assigned? (s.renamed g) = (assigned? s).map (Prod.map (Expr.renamed g) (Expr.renamed g)) := by
  cases s with
  | expr e _ =>
    cases e with
    | assign op target value _ => cases op <;> rfl
    | _ => rfl
  | _ => rfl

theorem saved?_renamed (g : String → String) (s : Stmt) :
    saved? (s.renamed g) = (saved? s).map (Prod.map g (Expr.renamed g)) := by
  cases s with
  | varDecl d _ =>
    obtain ⟨kind, ds, _⟩ := d
    obtain _ | ⟨⟨name, _ | init, _⟩, _ | ⟨d₂, ds⟩⟩ := ds <;> rfl
  | expr e _ =>
    cases e with
    | assign op target value _ =>
      cases op with
      | assign => cases target <;> rfl
      | _ => rfl
    | _ => rfl
  | _ => rfl

theorem assigned?_renamable {s : Stmt} {target value : Expr} (renamable : s.Renamable)
    (found : assigned? s = some (target, value)) :
    target.isRenamable = true ∧ value.isRenamable = true := by
  unfold assigned? at found
  split at found
  · cases found
    have whole := Stmt.isRenamable_expr renamable
    rwa [Expr.isRenamable, Bool.and_eq_true] at whole
  · cases found

theorem saved?_renamable {s : Stmt} {name : String} {value : Expr} (renamable : s.Renamable)
    (found : saved? s = some (name, value)) : value.isRenamable = true := by
  unfold saved? at found
  split at found
  · cases found
    simp only [Stmt.Renamable, Stmt.outline, VarDecl.outline, Declarator.outlines,
      Declarator.outline, Outline.every_mk, List.forall_mem_singleton] at renamable
    exact value.isRenamable_of_every renamable.2.2.2
  · simp only [Option.bind_eq_bind, Option.bind_eq_some_iff] at found
    obtain ⟨⟨target, value'⟩, assigned, name', named, same⟩ := found
    obtain ⟨rfl, rfl⟩ := Prod.mk.inj (Option.some.inj same)
    exact (assigned?_renamable renamable assigned).2

section

variable (ρ : Renaming)

theorem sameText_renamed {a b : Expr} (left : a.isRenamable = true)
    (right : b.isRenamable = true) :
    sameText (a.renamed ρ.apply) (b.renamed ρ.apply) = sameText a b := by
  rw [sameText, sameText, Bool.eq_iff_iff, beq_iff_eq, beq_iff_eq]
  exact text_renamed_eq_iff ρ left right

def Watch.renamed (w : Watch) : Watch := { w with name := ρ.apply w.name }

namespace Watch

variable (w : Watch)

@[simp] theorem elementIndex?_renamed (e : Expr) :
    (w.renamed ρ).elementIndex? (e.renamed ρ.apply) =
      (w.elementIndex? e).map (Expr.renamed ρ.apply) := by
  simp only [elementIndex?, Expr.indexed?_renamed, renamed]
  rcases e.indexed? with _ | ⟨object, i⟩
  · rfl
  · have named : object.name?.map ρ.apply = some (ρ.apply w.name) ↔ object.name? = some w.name := by
      rw [← Option.map_some, (Option.map_injective ρ.apply_injective).eq_iff]
    simp only [Option.map_some, Prod.map_apply, Expr.name?_renamed, named]
    split <;> rfl

@[simp] theorem isElement_renamed (e : Expr) :
    (w.renamed ρ).isElement (e.renamed ρ.apply) = w.isElement e := by
  simp [isElement]

@[simp] theorem comparesElements_renamed (e : Expr) :
    (w.renamed ρ).comparesElements (e.renamed ρ.apply) = w.comparesElements e := by
  cases e with
  | binary l op r s => simp only [Expr.renamed, comparesElements, isElement_renamed]
  | _ => rfl

theorem exchangesElements_renamed {e : Expr} (renamable : e.isRenamable = true) :
    (w.renamed ρ).exchangesElements (e.renamed ρ.apply) = w.exchangesElements e := by
  cases e with
  | assign op target value s =>
    cases op <;> try rfl
    cases target with
    | array left _ =>
      obtain _ | ⟨l₁, _ | ⟨l₂, _ | ⟨l₃, left⟩⟩⟩ := left <;> try rfl
      cases value with
      | array right _ =>
        obtain _ | ⟨r₁, _ | ⟨r₂, _ | ⟨r₃, right⟩⟩⟩ := right <;> try rfl
        simp only [Expr.isRenamable, Expr.areRenamable, Bool.and_eq_true] at renamable
        obtain ⟨⟨first, second, -⟩, first', second', -⟩ := renamable
        simp only [Expr.renamed, Expr.renameds, exchangesElements, isElement_renamed,
          sameText_renamed ρ first' second, sameText_renamed ρ second' first]
      | _ => rfl
    | _ => rfl
  | _ => rfl

theorem position_renamed (e : Expr) :
    ((w.renamed ρ).position (e.renamed ρ.apply)).toOption = (w.position e).toOption := by
  simp only [position, elementIndex?_renamed]
  cases w.elementIndex? e with
  | none => rfl
  | some i =>
    simp only [Option.map_some, Expr.number?_renamed]
    cases i.number?.bind Numeral.Signed.toIndex? <;> rfl

theorem comparedPosition_renamed (e : Expr) (placeholder : Nat) :
    ((w.renamed ρ).comparedPosition (e.renamed ρ.apply) placeholder).toOption =
      (w.comparedPosition e placeholder).toOption := by
  have policy : (w.renamed ρ).policy = w.policy := rfl
  have same := w.position_renamed ρ e
  simp only [comparedPosition, policy]
  cases first : w.position e <;> cases second : (w.renamed ρ).position (e.renamed ρ.apply) <;>
    rw [first, second] at same <;> cases same
  · cases w.policy <;> rfl
  · rfl

theorem swapPattern_renamed {target value : Expr} (targets : target.isRenamable = true)
    (values : value.isRenamable = true) :
    ((w.renamed ρ).swapPattern (target.renamed ρ.apply) (value.renamed ρ.apply)).toOption =
      (w.swapPattern target value).toOption := by
  simp only [swapPattern, Expr.items?_renamed]
  cases target with
  | array left s =>
    cases value with
    | array right s' =>
      simp only [Expr.items?, Option.map_some]
      obtain _ | ⟨l₁, _ | ⟨l₂, _ | ⟨l₃, left⟩⟩⟩ := left <;> try rfl
      obtain _ | ⟨r₁, _ | ⟨r₂, _ | ⟨r₃, right⟩⟩⟩ := right <;> try rfl
      simp only [Expr.isRenamable, Expr.areRenamable, Bool.and_eq_true] at targets values
      simp only [List.map_cons, List.map_nil, toOption_bind, position_renamed,
        sameText_renamed ρ values.1 targets.2.1, sameText_renamed ρ values.2.1 targets.1]
      refine congrArg _ (funext fun i => congrArg _ (funext fun j => ?_))
      split <;> rfl
    | _ => rfl
  | _ => rfl

theorem setPattern_renamed (target value : Expr) :
    ((w.renamed ρ).setPattern (target.renamed ρ.apply) (value.renamed ρ.apply)).toOption =
      (w.setPattern target value).toOption := by
  simp only [setPattern, toOption_bind, position_renamed, Expr.number?_renamed]
  cases value.number? <;> rfl

theorem comparisonPattern_renamed (lhs : Expr) (op : BinOp) (rhs : Expr) :
    ((w.renamed ρ).comparisonPattern (lhs.renamed ρ.apply) op (rhs.renamed ρ.apply)).toOption =
      (w.comparisonPattern lhs op rhs).toOption := by
  simp only [comparisonPattern]
  cases Relation.ofSymbol? op.text with
  | none => rfl
  | some r => simp only [toOption_bind, comparedPosition_renamed]

theorem recognize_renamed {e : Expr} (renamable : e.isRenamable = true) :
    ((w.renamed ρ).recognize (e.renamed ρ.apply)).toOption = (w.recognize e).toOption := by
  have element := w.isElement_renamed ρ e
  have compares := w.comparesElements_renamed ρ e
  have exchanges := w.exchangesElements_renamed ρ renamable
  have place := w.position_renamed ρ e
  cases e with
  | index object i s =>
    simp only [Expr.renamed] at element place
    simp only [Expr.renamed, recognize, element, place]
  | assign op target value s =>
    simp only [Expr.renamed] at exchanges
    cases op <;> try rfl
    rw [Expr.isRenamable, Bool.and_eq_true] at renamable
    have targetElement := w.isElement_renamed ρ target
    have swap := w.swapPattern_renamed ρ renamable.1 renamable.2
    have set := w.setPattern_renamed ρ target value
    cases target with
    | array items s' =>
      simp only [Expr.renamed] at exchanges swap
      simp only [Expr.renamed, recognize, exchanges, apply_ite Except.toOption, swap]
    | index object i s' =>
      simp only [Expr.renamed] at targetElement set
      simp only [Expr.renamed, recognize, targetElement, apply_ite Except.toOption, set]
    | _ => rfl
  | binary lhs op rhs s =>
    simp only [Expr.renamed] at compares
    simp only [Expr.renamed, recognize, compares, apply_ite Except.toOption,
      comparisonPattern_renamed]
  | _ => rfl

theorem pattern_eq (e : Expr) : w.pattern e = (w.recognize e).toOption.getD .unrecognized := by
  unfold pattern
  split <;> simp [*, Except.toOption]

theorem pattern_renamed {e : Expr} (renamable : e.isRenamable = true) :
    (w.renamed ρ).pattern (e.renamed ρ.apply) = w.pattern e := by
  rw [pattern_eq, pattern_eq, w.recognize_renamed ρ renamable]

theorem exchangesThrough_renamed {save shift restore : Stmt}
    (renamable : save.Renamable ∧ shift.Renamable ∧ restore.Renamable) :
    (w.renamed ρ).exchangesThrough (save.renamed ρ.apply) (shift.renamed ρ.apply)
      (restore.renamed ρ.apply) = w.exchangesThrough save shift restore := by
  simp only [exchangesThrough, saved?_renamed, assigned?_renamed]
  cases saved : saved? save with
  | none => rfl
  | some save' =>
  cases shifted : assigned? shift with
  | none => rfl
  | some shift' =>
  cases restored : assigned? restore with
  | none => rfl
  | some restore' =>
    obtain ⟨t, x⟩ := save'
    obtain ⟨x', y⟩ := shift'
    obtain ⟨y', t'⟩ := restore'
    have first := saved?_renamable renamable.1 saved
    obtain ⟨first', second⟩ := assigned?_renamable renamable.2.1 shifted
    obtain ⟨second', -⟩ := assigned?_renamable renamable.2.2 restored
    have back : (t'.name?.map ρ.apply == some (ρ.apply t)) = (t'.name? == some t) := by
      rw [Bool.eq_iff_iff, beq_iff_eq, beq_iff_eq, ← Option.map_some,
        (Option.map_injective ρ.apply_injective).eq_iff]
    simp only [Option.map_some, Prod.map_apply, isElement_renamed, sameText_renamed ρ first' first,
      sameText_renamed ρ second' second, Expr.name?_renamed, back]

theorem startsWithSwap_more (s shift restore : Stmt) (rest : List Stmt) :
    w.startsWithSwap (s :: shift :: restore :: rest) =
      (w.startsWithSwap [s] || w.exchangesThrough s shift restore) := by
  simp only [startsWithSwap, Bool.or_false]

theorem startsWithSwap_alone {s : Stmt} (renamable : s.Renamable) :
    (w.renamed ρ).startsWithSwap [s.renamed ρ.apply] = w.startsWithSwap [s] := by
  cases s with
  | expr e _ =>
    have exchanges := w.exchangesElements_renamed ρ (Stmt.isRenamable_expr renamable)
    simp only [Stmt.renamed, startsWithSwap, exchanges]
  | _ => rfl

theorem startsWithSwap_renamed {ss : List Stmt} (renamable : ∀ s ∈ ss, s.Renamable) :
    (w.renamed ρ).startsWithSwap (ss.map (Stmt.renamed ρ.apply)) = w.startsWithSwap ss := by
  obtain _ | ⟨s, rest⟩ := ss
  · rfl
  have alone := w.startsWithSwap_alone ρ (renamable s (by simp))
  obtain _ | ⟨shift, _ | ⟨restore, rest⟩⟩ := rest
  · exact alone
  · exact alone
  · have together := @exchangesThrough_renamed ρ w s shift restore
      ⟨renamable s (by simp), renamable shift (by simp), renamable restore (by simp)⟩
    simp only [List.map_cons, startsWithSwap_more, alone, together]

theorem holdsSwap_renamed {ss : List Stmt} (renamable : ∀ s ∈ ss, s.Renamable) :
    (w.renamed ρ).holdsSwap (ss.map (Stmt.renamed ρ.apply)) = w.holdsSwap ss := by
  induction ss with
  | nil => rfl
  | cons s rest ih =>
    have first := w.startsWithSwap_renamed ρ renamable
    have others := ih fun x member => renamable x (List.mem_cons_of_mem s member)
    simp only [List.map_cons] at first
    simp only [List.map_cons, holdsSwap, first, others]

theorem testRelation?_renamed (test : Expr) :
    (w.renamed ρ).testRelation? (test.renamed ρ.apply) = w.testRelation? test := by
  have compares := w.comparesElements_renamed ρ test
  cases test with
  | binary lhs op rhs s =>
    simp only [Expr.renamed] at compares
    simp only [Expr.renamed, testRelation?, compares]
  | _ => rfl

theorem aloneGuard?_renamed {s : Stmt} (renamable : s.Renamable) (inside : Option Guard) :
    (w.renamed ρ).aloneGuard? (s.renamed ρ.apply) inside = w.aloneGuard? s inside := by
  simp only [aloneGuard?, w.startsWithSwap_alone ρ renamable]

mutual

theorem firstGuard?_renamed : ∀ ss : List Stmt, (∀ s ∈ ss, s.Renamable) →
    (w.renamed ρ).firstGuard? (Stmt.renameds ρ.apply ss) = w.firstGuard? ss
  | [], _ => rfl
  | s :: rest, renamable => by
    have first := w.startsWithSwap_renamed ρ renamable
    rw [← Stmt.renameds_eq_map] at first
    obtain ⟨here, others⟩ := List.forall_mem_cons.mp renamable
    simp only [Stmt.renameds] at first
    simp only [Stmt.renameds, firstGuard?, first, guardInside?_renamed s here,
      firstGuard?_renamed rest others]

theorem guardInside?_renamed : ∀ s : Stmt, s.Renamable →
    (w.renamed ρ).guardInside? (s.renamed ρ.apply) = w.guardInside? s
  | .ifElse test c none _, renamable => by
    simp only [Stmt.Renamable, Stmt.outline, Outline.every_mk, List.forall_mem_cons] at renamable
    have inside : c.Renamable := renamable.2.2.1
    simp only [Stmt.renamed, Stmt.renamedOption, guardInside?, w.aloneGuard?_renamed ρ inside,
      guardInside?_renamed c inside, testRelation?_renamed, Stmt.statements_renamed,
      w.holdsSwap_renamed ρ (Stmt.renamable_statements inside)]
  | .ifElse test c (some a) _, renamable => by
    simp only [Stmt.Renamable, Stmt.outline, Outline.every_mk, List.forall_mem_cons] at renamable
    have inside : c.Renamable := renamable.2.2.1
    have other : a.Renamable := renamable.2.2.2.1
    simp only [Stmt.renamed, Stmt.renamedOption, guardInside?, w.aloneGuard?_renamed ρ inside,
      w.aloneGuard?_renamed ρ other, guardInside?_renamed c inside, guardInside?_renamed a other,
      testRelation?_renamed, Stmt.statements_renamed,
      w.holdsSwap_renamed ρ (Stmt.renamable_statements inside)]
  | .block body _, renamable => by
    simp only [Stmt.renamed, guardInside?, firstGuard?_renamed body (Stmt.renamable_block renamable)]
  | .loop (.forLoop _ _ _ body _) _, renamable | .loop (.forEach _ _ _ _ body _) _, renamable
  | .loop (.whileLoop _ body _) _, renamable | .loop (.doWhile body _ _) _, renamable => by
    have inside : body.Renamable := Stmt.renamable_loop renamable
    simp only [Stmt.renamed, Loop.renamed, guardInside?, w.aloneGuard?_renamed ρ inside,
      guardInside?_renamed body inside]
  | .varDecl .., _ | .func .., _ | .ret .., _ | .brk _, _ | .cont _, _ | .empty _, _
  | .expr .., _ => rfl

end

theorem guardOf_renamed {ss : List Stmt} (renamable : ∀ s ∈ ss, s.Renamable) :
    (w.renamed ρ).guardOf (ss.map (Stmt.renamed ρ.apply)) = w.guardOf ss := by
  rw [guardOf, ← Stmt.renameds_eq_map, w.firstGuard?_renamed ρ ss renamable, guardOf]

end Watch

end

end Synthesis

end SortTrace
