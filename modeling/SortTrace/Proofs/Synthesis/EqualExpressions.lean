import SortTrace.Proofs.Script.BareOutline
import SortTrace.Proofs.Script.EqualTexts
import SortTrace.Proofs.Script.Parsed
import SortTrace.Proofs.Synthesis.Shell

/-!
Equal expressions. Two expressions are taken for the same when they print the same, so an exchange
is found just where the same expressions change places, as long as different expressions look
different in print.
-/

namespace SortTrace

namespace Script

/-- Returned by the parser, without functions, and without grave accents in its templates. -/
structure Expr.IsClearlyParsed (e : Expr) : Prop where
  parsed : e.IsParsed
  clear : e.isClear = true

structure Expr.IsTelling (e : Expr) : Prop where
  spelled : e.isSpelled = true
  clear : e.isClear = true
  distinct : e.isDistinct = true

theorem Expr.IsClearlyParsed.isTelling {e : Expr} (clearly : e.IsClearlyParsed)
    (distinct : e.isDistinct = true) : e.IsTelling :=
  ⟨clearly.parsed.isSpelled, clearly.clear, distinct⟩

end Script

namespace Synthesis

open Script

theorem sameText_iff_apparent {a b : Expr} (spelledLeft : a.isSpelled = true)
    (clearLeft : a.isClear = true) (spelledRight : b.isSpelled = true)
    (clearRight : b.isClear = true) : sameText a b = true ↔ a.apparent = b.apparent := by
  rw [sameText, beq_iff_eq]
  constructor
  · exact apparent_eq_of_text_eq spelledLeft clearLeft spelledRight clearRight
  · intro same
    rw [← a.text_apparent, same, b.text_apparent]

theorem sameText_of_bare {a b : Expr} (same : a.bare = b.bare) : sameText a b = true := by
  rw [sameText, beq_iff_eq, ← a.text_bare, same, b.text_bare]

theorem sameText_iff_bare {a b : Expr} (left : a.IsTelling) (right : b.IsTelling) :
    sameText a b = true ↔ a.bare = b.bare := by
  constructor
  · intro same
    exact bare_eq_of_apparent_eq left.distinct right.distinct
      ((sameText_iff_apparent left.spelled left.clear right.spelled right.clear).mp same)
  · exact sameText_of_bare

namespace Watch

variable (w : Watch)

theorem exchangesElements_bare (e : Expr) : w.exchangesElements e.bare = w.exchangesElements e := by
  rw [← w.exchangesElements_shell e.bare, e.shell_bare, w.exchangesElements_shell e]

theorem isElement_bare (e : Expr) : w.isElement e.bare = w.isElement e := by
  rw [← w.isElement_shell e.bare, e.shell_bare, w.isElement_shell e]

theorem exchangesElements_iff {e : Expr} (telling : e.IsTelling) :
    w.exchangesElements e = true ↔ ∃ x y : Expr,
      e.bare = .assign .assign (.array [x, y] {}) (.array [y, x] {}) {} ∧
        w.isElement x = true ∧ w.isElement y = true := by
  constructor
  · intro exchanges
    unfold exchangesElements at exchanges
    split at exchanges
    · rename_i l₁ l₂ s₁ r₁ r₂ s₂ s₃
      obtain ⟨spelled, clear, distinct⟩ := telling
      simp only [Expr.isSpelled, Expr.isClear, Expr.isDistinct, Expr.areSpelled, Expr.areClear,
        Expr.areDistinct, Bool.and_eq_true, Bool.and_true] at spelled clear distinct exchanges
      obtain ⟨⟨⟨first, second⟩, sameFirst⟩, sameSecond⟩ := exchanges
      have crossed := (sameText_iff_bare ⟨spelled.2.1, clear.2.1, distinct.2.1⟩
        ⟨spelled.1.2.2, clear.1.2, distinct.1.2⟩).mp sameFirst
      have crossed' := (sameText_iff_bare ⟨spelled.2.2, clear.2.2, distinct.2.2⟩
        ⟨spelled.1.2.1, clear.1.1, distinct.1.1⟩).mp sameSecond
      refine ⟨l₁.bare, l₂.bare, ?_, by rwa [isElement_bare], by rwa [isElement_bare]⟩
      simp only [Expr.bare, Expr.bares, crossed, crossed']
    · cases exchanges
  · rintro ⟨x, y, shape, first, second⟩
    rw [← w.exchangesElements_bare, shape]
    simp [exchangesElements, first, second, sameText]

end Watch

theorem mem_exprs_of_assigned {s : Stmt} {target value : Expr}
    (found : assigned? s = some (target, value)) : target ∈ s.exprs ∧ value ∈ s.exprs := by
  unfold assigned? at found
  split at found
  · cases found
    have both : target ∈ Outline.exprs [target.outline, value.outline] ∧
        value ∈ Outline.exprs [target.outline, value.outline] := by
      rw [Outline.exprs_cons, List.mem_append, List.mem_append]
      exact ⟨.inl target.mem_exprs, .inr value.mem_exprs⟩
    rename_i span _
    have inside {d : Expr} (member : d ∈ Outline.exprs [target.outline, value.outline]) :
        d ∈ Outline.exprs [(Expr.assign .assign target value span).outline] := by
      rw [Expr.outline, Outline.exprs_mk]
      exact List.mem_cons_of_mem _ member
    exact ⟨Stmt.mem_exprs_expr (inside both.1), Stmt.mem_exprs_expr (inside both.2)⟩
  · cases found

theorem mem_exprs_of_saved {s : Stmt} {name : String} {value : Expr}
    (found : saved? s = some (name, value)) : value ∈ s.exprs := by
  unfold saved? at found
  split at found
  · cases found
    simp only [Stmt.exprs, Stmt.outline, VarDecl.outline, Declarator.outlines, Declarator.outline,
      Outline.exprs_mk, Node.expr?, Option.toList_none, List.nil_append]
    exact value.mem_exprs
  · simp only [Option.bind_eq_bind, Option.bind_eq_some_iff] at found
    obtain ⟨⟨target, value'⟩, assigned, name', -, same⟩ := found
    cases same
    exact (mem_exprs_of_assigned assigned).2

namespace Watch

variable (w : Watch)

theorem exchangesThrough_iff {save shift restore : Stmt}
    (telling : ∀ s ∈ [save, shift, restore], ∀ e ∈ s.exprs, e.IsTelling) :
    w.exchangesThrough save shift restore = true ↔ ∃ t x x' y y' t',
      saved? save = some (t, x) ∧ assigned? shift = some (x', y) ∧
        assigned? restore = some (y', t') ∧ w.isElement x = true ∧ w.isElement y = true ∧
        x'.bare = x.bare ∧ y'.bare = y.bare ∧ t'.name? = some t := by
  unfold exchangesThrough
  constructor
  · intro exchanges
    split at exchanges
    · rename_i t x x' y y' t' saved shifted restored
      simp only [Bool.and_eq_true, beq_iff_eq] at exchanges
      obtain ⟨⟨⟨⟨first, sameFirst⟩, second⟩, sameSecond⟩, back⟩ := exchanges
      have tellingSave := telling save (by simp)
      have tellingShift := telling shift (by simp)
      have tellingRestore := telling restore (by simp)
      have crossed := (sameText_iff_bare (tellingShift _ (mem_exprs_of_assigned shifted).1)
        (tellingSave _ (mem_exprs_of_saved saved))).mp sameFirst
      have crossed' := (sameText_iff_bare (tellingRestore _ (mem_exprs_of_assigned restored).1)
        (tellingShift _ (mem_exprs_of_assigned shifted).2)).mp sameSecond
      exact ⟨t, x, x', y, y', t', saved, shifted, restored, first, second, crossed, crossed', back⟩
    · cases exchanges
  · rintro ⟨t, x, x', y, y', t', saved, shifted, restored, first, second, crossed, crossed', back⟩
    simp only [saved, shifted, restored, first, second, sameText_of_bare crossed,
      sameText_of_bare crossed', back, Bool.and_true, beq_self_eq_true]

end Watch

/-- Parsed expressions have the same text just if they look the same, and if they are distinct, just
if they are the same up to spans. Then the patterns of an exchange accept the same expressions in
crossed places and nothing else. -/
theorem sameText_tells (w : Watch) {a b e : Expr} {save shift restore : Stmt}
    (left : a.IsClearlyParsed) (right : b.IsClearlyParsed) (whole : e.IsClearlyParsed)
    (statements : ∀ s ∈ [save, shift, restore], ∀ x ∈ s.exprs, x.IsClearlyParsed) :
    (sameText a b = true ↔ a.apparent = b.apparent) ∧
    (a.isDistinct = true → b.isDistinct = true → (sameText a b = true ↔ a.bare = b.bare)) ∧
    (e.isDistinct = true → (w.exchangesElements e = true ↔ ∃ x y : Expr,
      e.bare = .assign .assign (.array [x, y] {}) (.array [y, x] {}) {} ∧
        w.isElement x = true ∧ w.isElement y = true)) ∧
    ((∀ s ∈ [save, shift, restore], ∀ x ∈ s.exprs, x.isDistinct = true) →
      (w.exchangesThrough save shift restore = true ↔ ∃ t x x' y y' t',
        saved? save = some (t, x) ∧ assigned? shift = some (x', y) ∧
          assigned? restore = some (y', t') ∧ w.isElement x = true ∧ w.isElement y = true ∧
          x'.bare = x.bare ∧ y'.bare = y.bare ∧ t'.name? = some t)) := by
  refine ⟨?_, fun first second => ?_, fun distinct => ?_, fun distinct => ?_⟩
  · exact sameText_iff_apparent left.parsed.isSpelled left.clear right.parsed.isSpelled right.clear
  · exact sameText_iff_bare (left.isTelling first) (right.isTelling second)
  · exact w.exchangesElements_iff (whole.isTelling distinct)
  · exact w.exchangesThrough_iff fun s member x inside =>
      (statements s member x inside).isTelling (distinct s member x inside)

/-- Two elements change places twice: through a variable, and by destructuring. -/
def crossingText : String :=
  "t = arr[i + 1]; arr[i + 1] = arr[-j]; arr[-j] = t; [arr[0], arr[1]] = [arr[1], arr[0]]"

def exchangesTwice (w : Watch) : List Stmt → Bool
  | [save, shift, restore, .expr e _] =>
    w.exchangesElements e && w.exchangesThrough save shift restore
  | _ => false

theorem sameText_tells_crossing : ∃ p save shift restore e s,
    Program.ofText crossingText = .ok p ∧ p.body = [save, shift, restore, .expr e s] ∧
    (∃ x y : Expr, e.bare = .assign .assign (.array [x, y] {}) (.array [y, x] {}) {}) ∧
    ∃ t x x' y y' t', saved? save = some (t, x) ∧ assigned? shift = some (x', y) ∧
      assigned? restore = some (y', t') ∧ x'.bare = x.bare ∧ y'.bare = y.bare := by
  let w : Watch := ⟨"arr", .strict⟩
  have seen : ((Program.ofText crossingText).toOption.map fun p =>
      p.exprs.all (fun x => x.isClear && x.isDistinct) && exchangesTwice w p.body) =
        some true := by decide +kernel
  obtain ⟨p, read, seen⟩ := Option.map_eq_some_iff.mp seen
  have read := ok_of_toOption read
  rw [Bool.and_eq_true, List.all_eq_true] at seen
  obtain ⟨all, seen⟩ := seen
  simp only [Bool.and_eq_true] at all
  unfold exchangesTwice at seen
  split at seen
  · rename_i save shift restore e s body
    rw [Bool.and_eq_true] at seen
    have clearly : ∀ x ∈ p.exprs, x.IsClearlyParsed := fun x member =>
      ⟨.inProgram read member, (all x member).1⟩
    have member {s : Stmt} {x : Expr} (place : s ∈ p.body) (inside : x ∈ s.exprs) :
        x ∈ p.exprs := by
      rw [p.exprs_eq]
      exact List.mem_flatMap.mpr ⟨s, place, inside⟩
    have element : e ∈ p.exprs :=
      member (s := .expr e s) (by rw [body]; simp) (Stmt.mem_exprs_expr e.mem_exprs)
    have statement : ∀ s ∈ [save, shift, restore], ∀ x ∈ s.exprs, x ∈ p.exprs :=
      fun s place x inside => member
        (by rw [body]; exact List.mem_append_left [_] place) inside
    obtain ⟨-, -, swap, through⟩ := sameText_tells w (clearly e element) (clearly e element)
      (clearly e element) fun s place x inside => clearly x (statement s place x inside)
    obtain ⟨x, y, shape, -, -⟩ := (swap (all e element).2).mp seen.1
    obtain ⟨t, x₁, x₂, y₁, y₂, t', saved, shifted, restored, -, -, first, second, -⟩ :=
      (through fun s place x inside => (all x (statement s place x inside)).2).mp seen.2
    exact ⟨p, save, shift, restore, e, s, read, body, ⟨x, y, shape⟩, t, x₁, x₂, y₁, y₂, t',
      saved, shifted, restored, first, second⟩
  · cases seen

/-- An exchange by destructuring, but for an index that only looks the same. -/
def signsText : String := "[arr[-(-i)], arr[1]] = [arr[1], arr[--i]]"

def exchangesSigns (w : Watch) : List Stmt → Bool
  | [.expr (.assign op (.array [.index o (.unary sign x s₁) s₂, l₂] s)
      (.array [r₁, .index o' (.update step before x' s₃) s₄] s') s'') _] =>
    let first := .index o (.unary sign x s₁) s₂
    let second := .index o' (.update step before x' s₃) s₄
    w.exchangesElements (.assign op (.array [first, l₂] s) (.array [r₁, second] s') s'') &&
      sameText second first
  | _ => false

/-- Two signs and a step by one have the same text, so an exchange is found where there is none. -/
theorem exchangesElements_signs : ∃ p e l₁ l₂ r₁ r₂ op s s' s'' s₀,
    Program.ofText signsText = .ok p ∧ p.body = [.expr e s₀] ∧
    e = .assign op (.array [l₁, l₂] s) (.array [r₁, r₂] s') s'' ∧
    (∀ x ∈ p.exprs, x.IsClearlyParsed) ∧
    Watch.exchangesElements ⟨"arr", .strict⟩ e = true ∧
    sameText r₂ l₁ = true ∧ r₂.bare ≠ l₁.bare := by
  have seen : ((Program.ofText signsText).toOption.map fun p =>
      p.exprs.all Expr.isClear && exchangesSigns ⟨"arr", .strict⟩ p.body) = some true := by
    decide +kernel
  obtain ⟨p, read, seen⟩ := Option.map_eq_some_iff.mp seen
  have read := ok_of_toOption read
  rw [Bool.and_eq_true, List.all_eq_true] at seen
  obtain ⟨all, seen⟩ := seen
  unfold exchangesSigns at seen
  split at seen
  · rename_i body
    rw [Bool.and_eq_true] at seen
    refine ⟨p, _, _, _, _, _, _, _, _, _, _, read, body, rfl, fun x member => ?_, seen.1, seen.2, ?_⟩
    · exact ⟨.inProgram read member, all x member⟩
    · simp [Expr.bare]
  · cases seen

end Synthesis

end SortTrace
