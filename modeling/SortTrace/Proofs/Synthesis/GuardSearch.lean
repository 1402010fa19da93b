import SortTrace.Synthesis.Guard

/-!
What an unconditional guard says about the body it was found in. The search passes over every
condition that compares elements and holds an exchange itself, so the exchange it ends at is
reached without entering one of those. Other conditions it enters as if they always held.
-/

namespace SortTrace.Synthesis

open Script

namespace Watch

variable {w : Watch} {enters : Expr → Stmt → Prop} {s : Stmt} {rest : List Stmt}

def guards (w : Watch) (test : Expr) (consequent : Stmt) : Bool :=
  w.comparesElements test && w.holdsSwap consequent.statements

/-- An exchange starts at a statement that is reached from a list of statements through blocks,
bodies of loops, and branches of those conditions that `enters` lets in. -/
inductive ReachesSwap (w : Watch) (enters : Expr → Stmt → Prop) : List Stmt → Prop
  | here {body : List Stmt} : w.startsWithSwap body = true → ReachesSwap w enters body
  | later {s : Stmt} {rest : List Stmt} :
      ReachesSwap w enters rest → ReachesSwap w enters (s :: rest)
  | block {inner rest : List Stmt} {span : Span} :
      ReachesSwap w enters inner → ReachesSwap w enters (.block inner span :: rest)
  | loop {l : Loop} {span : Span} {rest : List Stmt} :
      ReachesSwap w enters [l.body] → ReachesSwap w enters (.loop l span :: rest)
  | consequent {test : Expr} {branch : Stmt} {alternate : Option Stmt} {span : Span}
      {rest : List Stmt} : enters test branch → ReachesSwap w enters [branch] →
      ReachesSwap w enters (.ifElse test branch alternate span :: rest)
  | alternate {test : Expr} {consequent branch : Stmt} {span : Span} {rest : List Stmt} :
      enters test consequent → ReachesSwap w enters [branch] →
      ReachesSwap w enters (.ifElse test consequent (some branch) span :: rest)

theorem relation_of_comparison {op : BinOp} (comparison : op.isComparison = true) :
    (Relation.ofSymbol? op.text).isSome = true := by
  cases op <;> first | rfl | cases comparison

theorem comparesElements_of_testRelation? {test : Expr}
    (unrelated : w.testRelation? test = none) : w.comparesElements test = false := by
  cases test with
  | binary l op r span =>
    refine Bool.eq_false_iff.mpr fun compares => ?_
    have comparison : op.isComparison = true := by
      simp only [comparesElements, Bool.and_eq_true] at compares
      exact compares.1
    have related := relation_of_comparison comparison
    simp only [testRelation?, compares, if_true] at unrelated
    rw [unrelated] at related
    cases related
  | _ => rfl

theorem guardInside?_ifElse {test : Expr} {consequent : Stmt} {alternate : Option Stmt}
    {span : Span} : w.guardInside? (.ifElse test consequent alternate span) =
      match w.testRelation? test, w.holdsSwap consequent.statements with
      | some r, true => some (.holding r)
      | _, _ => (w.aloneGuard? consequent (w.guardInside? consequent)).or
          (alternate.bind fun branch => w.aloneGuard? branch (w.guardInside? branch)) := by
  cases alternate <;> rw [guardInside?] <;> cases w.testRelation? test <;>
    cases w.holdsSwap consequent.statements <;> rfl

theorem guardInside?_ifElse_always {test : Expr} {consequent : Stmt} {alternate : Option Stmt}
    {span : Span}
    (found : w.guardInside? (.ifElse test consequent alternate span) = some .always) :
    w.guards test consequent = false ∧
      (w.aloneGuard? consequent (w.guardInside? consequent) = some .always ∨
        ∃ branch, alternate = some branch ∧
          w.aloneGuard? branch (w.guardInside? branch) = some .always) := by
  rw [guardInside?_ifElse] at found
  split at found
  · cases found
  · rename_i unguarded
    refine ⟨?_, ?_⟩
    · cases held : w.holdsSwap consequent.statements with
      | false => rw [guards, held, Bool.and_false]
      | true =>
        have unrelated : w.testRelation? test = none :=
          Option.eq_none_iff_forall_ne_some.mpr fun r related => unguarded r related held
        rw [guards, comparesElements_of_testRelation? unrelated, Bool.false_and]
    · obtain first | ⟨-, second⟩ := Option.or_eq_some_iff.mp found
      · exact .inl first
      · exact .inr (Option.bind_eq_some_iff.mp second)

theorem ReachesSwap.of_aloneGuard? (found : w.aloneGuard? s (w.guardInside? s) = some .always)
    (inside : w.guardInside? s = some .always → w.ReachesSwap enters [s]) :
    w.ReachesSwap enters [s] := by
  unfold aloneGuard? at found
  split at found
  · exact .here ‹_›
  · exact inside found

mutual

theorem ReachesSwap.of_firstGuard? (body : List Stmt) (found : w.firstGuard? body = some .always) :
    w.ReachesSwap (fun test consequent => w.guards test consequent = false) body := by
  match body with
  | [] => simp [firstGuard?] at found
  | s :: rest =>
    rw [firstGuard?] at found
    split at found
    · exact .here ‹_›
    · obtain inside | ⟨-, behind⟩ := Option.or_eq_some_iff.mp found
      · exact ReachesSwap.of_guardInside? s rest inside
      · exact .later (ReachesSwap.of_firstGuard? rest behind)

theorem ReachesSwap.of_guardInside? (s : Stmt) (rest : List Stmt)
    (found : w.guardInside? s = some .always) :
    w.ReachesSwap (fun test consequent => w.guards test consequent = false) (s :: rest) := by
  -- One case for each way the search descends; a branch is searched as a body of its own.
  match s with
  | .block inner span =>
    rw [guardInside?] at found
    exact .block (ReachesSwap.of_firstGuard? inner found)
  | .loop (.forLoop init test update body span') span =>
    rw [guardInside?] at found
    exact .loop (.of_aloneGuard? found (ReachesSwap.of_guardInside? body []))
  | .loop (.forEach decl binding iterable values body span') span =>
    rw [guardInside?] at found
    exact .loop (.of_aloneGuard? found (ReachesSwap.of_guardInside? body []))
  | .loop (.whileLoop test body span') span =>
    rw [guardInside?] at found
    exact .loop (.of_aloneGuard? found (ReachesSwap.of_guardInside? body []))
  | .loop (.doWhile body test span') span =>
    rw [guardInside?] at found
    exact .loop (.of_aloneGuard? found (ReachesSwap.of_guardInside? body []))
  | .ifElse test branch none span =>
    obtain ⟨unguarded, first | ⟨_, missing, -⟩⟩ := guardInside?_ifElse_always found
    · exact .consequent unguarded (.of_aloneGuard? first (ReachesSwap.of_guardInside? branch []))
    · cases missing
  | .ifElse test branch (some other) span =>
    obtain ⟨unguarded, first | ⟨_, same, second⟩⟩ := guardInside?_ifElse_always found
    · exact .consequent unguarded (.of_aloneGuard? first (ReachesSwap.of_guardInside? branch []))
    · cases same
      exact .alternate unguarded (.of_aloneGuard? second (ReachesSwap.of_guardInside? other []))
  | .varDecl .. | .func .. | .ret .. | .brk _ | .cont _ | .empty _ | .expr .. =>
    simp [guardInside?] at found

end

/-- A body with an unconditional guard reaches its exchange without entering a condition that
compares elements and holds an exchange itself. -/
theorem reachesSwap_of_always (body : List Stmt) (always : w.guardOf body = .always) :
    w.ReachesSwap (fun test consequent => w.guards test consequent = false) body := by
  refine ReachesSwap.of_firstGuard? body ?_
  unfold guardOf at always
  cases found : w.firstGuard? body with
  | none => rw [found] at always; cases always
  | some guard => rw [found, Option.getD_some] at always; rw [always]

/-- `[arr[j], arr[k]] = [arr[k], arr[j]]` under a condition that is no comparison. -/
def readyBody : List Stmt :=
  let left := Expr.index (.ident "arr" {}) (.ident "j" {}) {}
  let right := Expr.index (.ident "arr" {}) (.ident "k" {}) {}
  let swap := Expr.assign .assign (.array [left, right] {}) (.array [right, left] {}) {}
  [.ifElse (.ident "ready" {}) (.block [.expr swap {}] {}) none {}]

theorem guardOf_readyBody : Watch.guardOf ⟨"arr", .strict⟩ readyBody = .always := by
  simp [guardOf, readyBody, firstGuard?, guardInside?, aloneGuard?, startsWithSwap, testRelation?,
    exchangesElements, isElement, elementIndex?, Expr.indexed?, Expr.name?, sameText]

theorem reachesSwap_readyBody :
    Watch.guardOf ⟨"arr", .strict⟩ readyBody = .always ∧
      ReachesSwap ⟨"arr", .strict⟩
        (fun test consequent => Watch.guards ⟨"arr", .strict⟩ test consequent = false) readyBody :=
  ⟨guardOf_readyBody, reachesSwap_of_always readyBody guardOf_readyBody⟩

/-- Without entering any condition the exchange need not be reached. -/
theorem not_reachesSwap_readyBody :
    Watch.guardOf ⟨"arr", .strict⟩ readyBody = .always ∧
      ¬ ReachesSwap ⟨"arr", .strict⟩ (fun _ _ => False) readyBody := by
  refine ⟨guardOf_readyBody, fun reached => ?_⟩
  cases reached with
  | here starts => cases starts
  | later reached =>
    cases reached with
    | here starts => cases starts
  | consequent entered => exact entered

end Watch

end SortTrace.Synthesis
