import SortTrace.Proofs.Script.Shell
import SortTrace.Synthesis.Guard

/-!
Patterns, exchanges and guards look at no more than shells.
-/

namespace SortTrace.Synthesis

open Script

theorem sameText_shell (a b : Expr) : sameText a.shell b.shell = sameText a b := by
  simp [sameText]

namespace Watch

variable (w : Watch)

@[simp] theorem elementIndex?_shell (e : Expr) :
    w.elementIndex? e.shell = (w.elementIndex? e).map Expr.shell := by
  simp only [elementIndex?, Expr.indexed?_shell]
  cases e.indexed? with
  | none => rfl
  | some indexed =>
    simp only [Option.map_some, Expr.name?_shell]
    split <;> rfl

@[simp] theorem isElement_shell (e : Expr) : w.isElement e.shell = w.isElement e := by
  simp [isElement]

@[simp] theorem comparesElements_shell (e : Expr) :
    w.comparesElements e.shell = w.comparesElements e := by
  cases e with
  | binary l op r s => simp only [Expr.shell, comparesElements, isElement_shell]
  | _ => rfl

theorem exchangesElements_shell (e : Expr) :
    w.exchangesElements e.shell = w.exchangesElements e := by
  cases e with
  | assign op target value s =>
    cases op <;> try rfl
    cases target with
    | array left _ =>
      obtain _ | ⟨l₁, _ | ⟨l₂, _ | ⟨l₃, left⟩⟩⟩ := left <;> try rfl
      cases value with
      | array right _ =>
        obtain _ | ⟨r₁, _ | ⟨r₂, _ | ⟨r₃, right⟩⟩⟩ := right <;> try rfl
        simp only [Expr.shell, Expr.shells, exchangesElements, isElement_shell, sameText_shell]
      | _ => rfl
    | _ => rfl
  | _ => rfl

theorem position_shell (e : Expr) : w.position e.shell = w.position e := by
  simp only [position, elementIndex?_shell, Expr.text_shell]
  cases w.elementIndex? e with
  | none => rfl
  | some i => simp only [Option.map_some, Expr.number?_shell, Expr.text_shell]

theorem comparedPosition_shell (e : Expr) (placeholder : Nat) :
    w.comparedPosition e.shell placeholder = w.comparedPosition e placeholder := by
  simp only [comparedPosition, position_shell]

theorem swapPattern_shell (target value : Expr) :
    w.swapPattern target.shell value.shell = w.swapPattern target value := by
  simp only [swapPattern, Expr.items?_shell, Expr.text_shell]
  rcases target.items? with _ | left
  · rfl
  rcases value.items? with _ | right
  · rfl
  obtain _ | ⟨l₁, _ | ⟨l₂, _ | ⟨l₃, left⟩⟩⟩ := left <;> simp
  obtain _ | ⟨r₁, _ | ⟨r₂, _ | ⟨r₃, right⟩⟩⟩ := right <;> simp [position_shell, sameText_shell]

theorem setPattern_shell (target value : Expr) :
    w.setPattern target.shell value.shell = w.setPattern target value := by
  simp only [setPattern, position_shell, Expr.number?_shell, Expr.text_shell]

theorem comparisonPattern_shell (lhs : Expr) (op : BinOp) (rhs : Expr) :
    w.comparisonPattern lhs.shell op rhs.shell = w.comparisonPattern lhs op rhs := by
  simp only [comparisonPattern, comparedPosition_shell]

theorem recognize_shell (e : Expr) : w.recognize e.shell = w.recognize e := by
  have element := w.isElement_shell e
  have compares := w.comparesElements_shell e
  have exchanges := w.exchangesElements_shell e
  have place := w.position_shell e
  cases e with
  | index object i s =>
    simp only [Expr.shell] at element place
    simp only [Expr.shell, recognize, element, place]
  | assign op target value s =>
    simp only [Expr.shell] at exchanges
    cases op <;> try rfl
    have targetElement := w.isElement_shell target
    have swap := w.swapPattern_shell target value
    have set := w.setPattern_shell target value
    cases target with
    | array items s' =>
      simp only [Expr.shell] at exchanges swap
      simp only [Expr.shell, recognize, exchanges, swap]
    | index object i s' =>
      simp only [Expr.shell] at targetElement set
      simp only [Expr.shell, recognize, targetElement, set]
    | _ => rfl
  | binary lhs op rhs s =>
    simp only [Expr.shell] at compares
    simp only [Expr.shell, recognize, compares, comparisonPattern_shell]
  | _ => rfl

@[simp] theorem pattern_shell (e : Expr) : w.pattern e.shell = w.pattern e := by
  simp only [pattern, recognize_shell]

@[simp] theorem notices_shell (e : Expr) : w.notices e.shell = w.notices e := by
  simp only [notices, recognize_shell, Expr.text_shell]

end Watch

theorem assigned?_shell (s : Stmt) :
    assigned? s.shell = (assigned? s).map fun (target, value) => (target.shell, value.shell) := by
  cases s with
  | expr e _ =>
    cases e with
    | assign op target value _ => cases op <;> rfl
    | _ => rfl
  | _ => rfl

theorem saved?_shell (s : Stmt) :
    saved? s.shell = (saved? s).map fun (name, value) => (name, value.shell) := by
  have plain : (do
      let (target, value) ← assigned? s.shell
      return (← target.name?, value)) =
      ((do
        let (target, value) ← assigned? s
        return (← target.name?, value)) : Option (String × Expr)).map
        fun (name, value) => (name, value.shell) := by
    rw [assigned?_shell]
    rcases assigned? s with _ | ⟨target, value⟩
    · rfl
    · simp only [Option.map_some, Option.bind_eq_bind, Option.bind_some, Expr.name?_shell]
      cases target.name? <;> rfl
  cases s with
  | varDecl d _ =>
    obtain ⟨kind, ds, _⟩ := d
    obtain _ | ⟨⟨name, _ | init, _⟩, _ | ⟨d₂, ds⟩⟩ := ds <;> rfl
  | _ => exact plain

namespace Watch

variable (w : Watch)

theorem exchangesThrough_shell (save shift restore : Stmt) :
    w.exchangesThrough save.shell shift.shell restore.shell =
      w.exchangesThrough save shift restore := by
  simp only [exchangesThrough, saved?_shell, assigned?_shell]
  rcases saved? save with _ | ⟨t, x⟩
  · rfl
  rcases assigned? shift with _ | ⟨x', y⟩
  · rfl
  rcases assigned? restore with _ | ⟨y', t'⟩
  · rfl
  simp only [Option.map_some, isElement_shell, sameText_shell, Expr.name?_shell]

theorem startsWithSwap_shell (ss : List Stmt) :
    w.startsWithSwap (ss.map Stmt.shell) = w.startsWithSwap ss := by
  obtain _ | ⟨s, rest⟩ := ss
  · rfl
  obtain _ | ⟨shift, _ | ⟨restore, rest⟩⟩ := rest
  · cases s <;> simp [Stmt.shell, startsWithSwap, exchangesElements_shell]
  · cases s <;> simp [Stmt.shell, startsWithSwap, exchangesElements_shell]
  · have together := w.exchangesThrough_shell s shift restore
    simp only [List.map_cons, startsWithSwap, together]
    cases s <;> simp [Stmt.shell, exchangesElements_shell]

theorem holdsSwap_shell (ss : List Stmt) : w.holdsSwap (ss.map Stmt.shell) = w.holdsSwap ss := by
  induction ss with
  | nil => rfl
  | cons s rest ih =>
    have first := w.startsWithSwap_shell (s :: rest)
    simp only [List.map_cons] at first
    simp only [List.map_cons, holdsSwap, first, ih]

theorem testRelation?_shell (test : Expr) : w.testRelation? test.shell = w.testRelation? test := by
  have compares := w.comparesElements_shell test
  cases test with
  | binary lhs op rhs s =>
    simp only [Expr.shell] at compares
    simp only [Expr.shell, testRelation?, compares]
  | _ => rfl

theorem aloneGuard?_shell (s : Stmt) (inside : Option Guard) :
    w.aloneGuard? s.shell inside = w.aloneGuard? s inside := by
  have alone := w.startsWithSwap_shell [s]
  simp only [List.map_cons, List.map_nil] at alone
  simp only [aloneGuard?, alone]

mutual

theorem firstGuard?_shell : ∀ ss : List Stmt, w.firstGuard? (Stmt.shells ss) = w.firstGuard? ss
  | [] => rfl
  | s :: rest => by
    have first := w.startsWithSwap_shell (s :: rest)
    rw [← Stmt.shells_eq_map] at first
    simp only [Stmt.shells] at first
    simp only [Stmt.shells, firstGuard?, first, guardInside?_shell s, firstGuard?_shell rest]

theorem guardInside?_shell : ∀ s : Stmt, w.guardInside? s.shell = w.guardInside? s
  | .ifElse test consequent none _ => by
    simp only [Stmt.shell, Stmt.shellOption, guardInside?, aloneGuard?_shell,
      guardInside?_shell consequent, testRelation?_shell, Stmt.statements_shell, holdsSwap_shell]
  | .ifElse test consequent (some a) _ => by
    simp only [Stmt.shell, Stmt.shellOption, guardInside?, aloneGuard?_shell,
      guardInside?_shell consequent, guardInside?_shell a, testRelation?_shell,
      Stmt.statements_shell, holdsSwap_shell]
  | .block body _ => by simp only [Stmt.shell, guardInside?, firstGuard?_shell body]
  | .loop (.forLoop _ _ _ body _) _ | .loop (.forEach _ _ _ _ body _) _
  | .loop (.whileLoop _ body _) _ | .loop (.doWhile body _ _) _ => by
    simp only [Stmt.shell, Loop.shell, guardInside?, aloneGuard?_shell, guardInside?_shell body]
  | .varDecl .. | .func .. | .ret .. | .brk _ | .cont _ | .empty _ | .expr .. => rfl

end

theorem guardOf_shell (ss : List Stmt) : w.guardOf (ss.map Stmt.shell) = w.guardOf ss := by
  rw [guardOf, ← Stmt.shells_eq_map, firstGuard?_shell, guardOf]

end Watch

end SortTrace.Synthesis
