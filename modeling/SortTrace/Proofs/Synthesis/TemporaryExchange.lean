import SortTrace.Proofs.Results
import SortTrace.Proofs.Script.Assignments
import SortTrace.Proofs.Script.EqualTexts
import SortTrace.Synthesis.Exchange

/-!
Exchanges through a variable. Three assignments that are taken for an exchange do exchange two
elements when they are executed, if the elements do not use the variable between them.
-/

namespace SortTrace

namespace Script

/-- Made of names and whole numbers with `+` and `-`. -/
inductive Expr.PlainIndex : Expr → Prop
  | number {v : Numeral.Magnitude} (s : Span) : v.isIntegral = true → PlainIndex (.number v s)
  | ident {name : String} (s : Span) : isIdentifier name = true → PlainIndex (.ident name s)
  | sign {op : UnaryOp} {e : Expr} (s : Span) : op = .neg ∨ op = .plus → PlainIndex e →
      PlainIndex (.unary op e s)
  | sum {l r : Expr} {op : BinOp} (s : Span) : op = .add ∨ op = .sub → PlainIndex l →
      PlainIndex r → PlainIndex (.binary l op r s)

namespace Expr.PlainIndex

variable {e e' : Expr}

theorem isSpelled (plain : e.PlainIndex) : e.isSpelled = true := by
  induction plain with
  | number s whole => rfl
  | ident s name => exact name
  | sign s op inner ih => exact ih
  | sum s op left right ihLeft ihRight => rw [Expr.isSpelled, ihLeft, ihRight, Bool.and_true]

theorem isClear (plain : e.PlainIndex) : e.isClear = true := by
  induction plain with
  | number | ident => rfl
  | sign s op inner ih => exact ih
  | sum s op left right ihLeft ihRight => rw [Expr.isClear, ihLeft, ihRight, Bool.and_true]

theorem apparent (plain : e.PlainIndex) : e.apparent = e.bare := by
  induction plain with
  | @number v s whole =>
    have finite : v.isInfinite = false := by
      simp only [Numeral.Magnitude.isIntegral, Bool.and_eq_true, Bool.not_eq_true'] at whole
      exact whole.1
    simp [Expr.apparent, Expr.bare, finite]
  | ident s name => rfl
  | sign s op inner ih => rw [Expr.apparent, Expr.bare, ih]
  | sum s op left right ihLeft ihRight => rw [Expr.apparent, Expr.bare, ihLeft, ihRight]

theorem bare_eq (plain : e.PlainIndex) (plain' : e'.PlainIndex) (same : e.text = e'.text) :
    e.bare = e'.bare := by
  rw [← plain.apparent, ← plain'.apparent]
  exact apparent_eq_of_text_eq plain.isSpelled plain.isClear plain'.isSpelled plain'.isClear same

theorem evaluate_bare (plain : e.PlainIndex) (σ : Store) : σ.evaluate e.bare = σ.evaluate e := by
  induction plain with
  | number | ident => rfl
  | sign s op inner ih => rcases op with rfl | rfl <;> simp only [Expr.bare, Store.evaluate, ih]
  | sum s op left right ihLeft ihRight =>
    rcases op with rfl | rfl <;> simp only [Expr.bare, Store.evaluate, ihLeft, ihRight]

theorem evaluate_eq (plain : e.PlainIndex) (plain' : e'.PlainIndex) (same : e.text = e'.text)
    (σ : Store) : σ.evaluate e = σ.evaluate e' := by
  rw [← plain.evaluate_bare, plain.bare_eq plain' same, plain'.evaluate_bare]

theorem evaluate_update (plain : e.PlainIndex) {name : String} (unused : e.mentions name = false)
    (σ : Store) (v : Value) : Store.evaluate (Function.update σ name v) e = σ.evaluate e := by
  induction plain with
  | number => rfl
  | @ident read s spelled =>
    have other : read ≠ name := by simpa [Expr.mentions] using unused
    simp only [Store.evaluate, Function.update_of_ne other]
  | sign s op inner ih =>
    have same := ih unused
    rcases op with rfl | rfl <;> simp only [Store.evaluate, same]
  | sum s op left right ihLeft ihRight =>
    rw [Expr.mentions, Bool.or_eq_false_iff] at unused
    have sameLeft := ihLeft unused.1
    have sameRight := ihRight unused.2
    rcases op with rfl | rfl <;> simp only [Store.evaluate, sameLeft, sameRight]

theorem mentions_array (plain : e.PlainIndex) {σ : Store} {n : Int} {a : String} {xs : List Int}
    (value : σ.evaluate e = some (.int n)) (array : σ a = .array xs) : e.mentions a = false := by
  induction plain generalizing n with
  | number => rfl
  | @ident name s spelled =>
    have other : name ≠ a := by
      rintro rfl
      rw [Store.evaluate, array] at value
      cases value
    simpa [Expr.mentions] using other
  | sign s op inner ih =>
    rcases op with rfl | rfl
    · obtain ⟨-, k, -, operand⟩ := Value.combine?_int value
      exact ih operand
    · obtain ⟨-, k, -, operand⟩ := Value.combine?_int value
      exact ih operand
  | sum s op left right ihLeft ihRight =>
    rcases op with rfl | rfl
    · obtain ⟨j, k, first, second⟩ := Value.combine?_int value
      rw [Expr.mentions, ihLeft first, ihRight second]
      rfl
    · obtain ⟨j, k, first, second⟩ := Value.combine?_int value
      rw [Expr.mentions, ihLeft first, ihRight second]
      rfl

end Expr.PlainIndex

end Script

namespace Synthesis

open Script

def Watch.PlainElement (w : Watch) (e : Expr) : Prop :=
  ∃ i, w.elementIndex? e = some i ∧ i.PlainIndex

theorem Watch.elementIndex?_some {w : Watch} {e i : Expr} (found : w.elementIndex? e = some i) :
    ∃ s s', e = .index (.ident w.name s) i s' := by
  cases e with
  | index o j s' =>
    simp only [elementIndex?, Expr.indexed?] at found
    split at found
    · rename_i name
      cases found
      cases o with
      | ident n s => exact ⟨s, s', by rw [Option.some.inj name]⟩
      | _ => cases name
    · cases found
  | _ => cases found

def Watch.StandsAt (w : Watch) (σ : Store) (e : Expr) (n : Nat) : Prop :=
  ∃ i xs, w.elementIndex? e = some i ∧ σ.evaluate i = some (.int n) ∧ σ w.name = .array xs ∧
    n < xs.length

/-- The elements at two positions have changed places, and every other element is what it was. -/
structure Exchanged (m n : Nat) (xs ys : List Int) : Prop where
  length : ys.length = xs.length
  first : ys[m]? = xs[n]?
  second : ys[n]? = xs[m]?
  other (k : Nat) : k ≠ m → k ≠ n → ys[k]? = xs[k]?

theorem exchanged_set {xs : List Int} {m n : Nat} (boundFirst : m < xs.length)
    (boundSecond : n < xs.length) :
    Exchanged m n xs ((xs.set m xs[n]).set n xs[m]) where
  length := by simp
  first := by
    by_cases same : n = m
    · subst same
      simp [boundFirst]
    · simp [same, boundFirst, boundSecond]
  second := by simp [boundFirst, boundSecond]
  other k first second := by
    rw [List.getElem?_set_ne (Ne.symm second), List.getElem?_set_ne (Ne.symm first)]

theorem positionIn?_nat {xs : List Int} {n : Nat} (bound : n < xs.length) :
    positionIn? xs n = some n := by
  rw [positionIn?, if_pos (by omega), Int.toNat_natCast]

namespace Watch

variable {w : Watch} {σ : Store} {xs : List Int} {e e' i : Expr} {s s' : Span} {n : Nat}

theorem evaluate_index (plain : w.PlainElement e) (plain' : w.PlainElement e')
    (same : sameText e' e = true) : ∃ i i' s s' s₁ s₁', e = .index (.ident w.name s) i s' ∧
      e' = .index (.ident w.name s₁) i' s₁' ∧ i.PlainIndex ∧
      ∀ σ : Store, σ.evaluate i' = σ.evaluate i := by
  obtain ⟨i, found, index⟩ := plain
  obtain ⟨i', found', index'⟩ := plain'
  obtain ⟨s, s', rfl⟩ := elementIndex?_some found
  obtain ⟨s₁, s₁', rfl⟩ := elementIndex?_some found'
  rw [sameText, beq_iff_eq, Expr.text, Expr.text, ← String.toList_inj] at same
  have text : i'.text = i.text := by
    simpa [Expr.inPlace, Expr.level, Expr.text, String.toList_inj] using same
  exact ⟨i, i', s, s', s₁, s₁', rfl, rfl, index, index'.evaluate_eq index text⟩

theorem elementIndex?_index : w.elementIndex? (.index (.ident w.name s) i s') = some i := by
  simp [elementIndex?, Expr.indexed?, Expr.name?]

theorem standsAt_index (array : σ w.name = .array xs) :
    w.StandsAt σ (.index (.ident w.name s) i s') n ↔
      σ.evaluate i = some (.int n) ∧ n < xs.length := by
  unfold StandsAt
  rw [elementIndex?_index, array]
  constructor
  · rintro ⟨i, xs, ⟨⟩, value, ⟨⟩, bound⟩
    exact ⟨value, bound⟩
  · rintro ⟨value, bound⟩
    exact ⟨i, xs, rfl, value, rfl, bound⟩

end Watch

end Synthesis

namespace Script.Store

open Synthesis

variable {σ : Store} {a : String} {xs : List Int} {i : Expr} {s s' : Span} {n : Nat}

theorem evaluate_element (array : σ a = .array xs) (value : σ.evaluate i = some (.int n))
    (bound : n < xs.length) : σ.evaluate (.index (.ident a s) i s') = some (.int xs[n]) := by
  simp only [evaluate, array, value, element?, positionIn?_nat bound, Option.bind_some,
    List.getElem?_eq_getElem bound, Option.map_some]

theorem assign_element (array : σ a = .array xs) (value : σ.evaluate i = some (.int n))
    (bound : n < xs.length) (x : Int) : σ.assign (.index (.ident a s) i s') (.int x) =
      some (Function.update σ a (.array (xs.set n x))) := by
  simp only [assign, setElement, value, array, positionIn?_nat bound, Option.map_some]

theorem execute_assigned {s : Stmt} {target value : Expr}
    (found : assigned? s = some (target, value)) :
    σ.execute s = (σ.evaluate value).bind (σ.assign target) := by
  unfold assigned? at found
  split at found
  · cases found
    rfl
  · cases found

theorem execute_saved {s : Stmt} {name : String} {value : Expr}
    (found : saved? s = some (name, value)) :
    σ.execute s = (σ.evaluate value).map (Function.update σ name) := by
  unfold saved? at found
  split at found
  · cases found
    rfl
  · simp only [Option.bind_eq_bind, Option.bind_eq_some_iff] at found
    obtain ⟨⟨target, value'⟩, assigned, name', named, same⟩ := found
    obtain ⟨rfl, rfl⟩ := Prod.mk.inj (Option.some.inj same)
    rw [execute_assigned assigned]
    cases target with
    | ident n s =>
      cases named
      cases σ.evaluate value' <;> rfl
    | _ => cases named

end Script.Store

namespace Synthesis

open Script

/-- Three statements that are taken for an exchange through a variable exchange the elements that
they name first, if these do not use the variable. -/
theorem executeAll_exchangesThrough (w : Watch) {save shift restore : Stmt} {t : String}
    {x x' y y' t' : Expr} (saved : saved? save = some (t, x))
    (shifted : assigned? shift = some (x', y)) (restored : assigned? restore = some (y', t'))
    (swaps : w.exchangesThrough save shift restore = true)
    (plain : ∀ e ∈ [x, x', y, y'], w.PlainElement e)
    (unused : x.mentions t = false ∧ y.mentions t = false)
    {σ : Store} {xs : List Int} {m n : Nat} (array : σ w.name = .array xs)
    (first : w.StandsAt σ x m) (second : w.StandsAt σ y n) :
    ∃ σ' ys, σ.executeAll [save, shift, restore] = some σ' ∧ σ' w.name = .array ys ∧
      Exchanged m n xs ys ∧ ∀ name, name ≠ t → name ≠ w.name → σ' name = σ name := by
  simp only [Watch.exchangesThrough, saved, shifted, restored, Bool.and_eq_true, beq_iff_eq]
    at swaps
  obtain ⟨⟨⟨⟨-, sameFirst⟩, -⟩, sameSecond⟩, back⟩ := swaps
  obtain ⟨i, i', s, s', s₁, s₁', rfl, rfl, plainFirst, valueFirst⟩ :=
    Watch.evaluate_index (plain x (by simp)) (plain x' (by simp)) sameFirst
  obtain ⟨j, j', u, u', u₁, u₁', rfl, rfl, plainSecond, valueSecond⟩ :=
    Watch.evaluate_index (plain y (by simp)) (plain y' (by simp)) sameSecond
  obtain ⟨atFirst, boundFirst⟩ := (Watch.standsAt_index array).mp first
  obtain ⟨atSecond, boundSecond⟩ := (Watch.standsAt_index array).mp second
  simp only [Expr.mentions, Bool.or_eq_false_iff, beq_eq_false_iff_ne] at unused
  obtain ⟨⟨other, unusedFirst⟩, -, unusedSecond⟩ := unused
  -- The indices keep their values: they read neither the variable nor the array.
  have keepsFirst := plainFirst.mentions_array atFirst array
  have keepsSecond := plainSecond.mentions_array atSecond array
  let σ₁ : Store := Function.update σ t (.int xs[m])
  let σ₂ : Store := Function.update σ₁ w.name (.array (xs.set m xs[n]))
  let σ₃ : Store := Function.update σ₂ w.name (.array ((xs.set m xs[n]).set n xs[m]))
  have array₁ : σ₁ w.name = .array xs := by
    rw [← array]
    exact Function.update_of_ne other ..
  have array₂ : σ₂ w.name = .array (xs.set m xs[n]) := Function.update_self ..
  have first₁ : σ₁.evaluate i = some (.int m) := by
    rw [plainFirst.evaluate_update unusedFirst, atFirst]
  have second₁ : σ₁.evaluate j = some (.int n) := by
    rw [plainSecond.evaluate_update unusedSecond, atSecond]
  have second₂ : σ₂.evaluate j = some (.int n) := by
    rw [plainSecond.evaluate_update keepsSecond, second₁]
  have saves : σ.execute save = some σ₁ := by
    rw [Store.execute_saved saved, Store.evaluate_element array atFirst boundFirst]
    rfl
  have shifts : σ₁.execute shift = some σ₂ := by
    rw [Store.execute_assigned shifted, Store.evaluate_element array₁ second₁ boundSecond,
      Option.bind_some, Store.assign_element array₁ (by rw [valueFirst, first₁]) boundFirst]
  have variable₂ : σ₂ t = .int xs[m] := by
    rw [show σ₂ t = σ₁ t from Function.update_of_ne (Ne.symm other) ..]
    exact Function.update_self ..
  have restores : σ₂.execute restore = some σ₃ := by
    cases t' with
    | ident name v =>
      cases back
      rw [Store.execute_assigned restored, Store.evaluate, variable₂, Option.bind_some,
        Store.assign_element array₂ (by rw [valueSecond, second₂]) (by simpa using boundSecond)]
    | _ => cases back
  refine ⟨σ₃, _, ?_, Function.update_self .., exchanged_set boundFirst boundSecond, ?_⟩
  · rw [Store.executeAll, saves, Option.bind_some, Store.executeAll, shifts, Option.bind_some,
      Store.executeAll, restores]
    rfl
  · intro name notVariable notArray
    simp only [σ₃, σ₂, σ₁, Function.update_of_ne notArray, Function.update_of_ne notVariable]

def named (name : String) : Expr :=
  .ident name default

def nextPlace : Expr :=
  .binary (named "i") .add (.number (.ofDecimal 1 0) default) default

def elementAt (i : Expr) : Expr :=
  .index (named "arr") i default

def setTo (target value : Expr) : Stmt :=
  .expr (.assign .assign target value default) default

def threeElements (name : String) : Value :=
  if name = "arr" then .array [5, 7, 9] else if name = "j" then .int 2 else .int 0

/-- `t = arr[i + 1]; arr[i + 1] = arr[j]; arr[j] = t` at `i = 0` and `j = 2`. -/
theorem executeAll_exchangesThrough_next :
    ∃ σ' ys, Store.executeAll threeElements [setTo (named "t") (elementAt nextPlace),
        setTo (elementAt nextPlace) (elementAt (named "j")),
        setTo (elementAt (named "j")) (named "t")] = some σ' ∧ σ' "arr" = .array ys ∧
      Exchanged 1 2 [5, 7, 9] ys ∧
      ∀ name, name ≠ "t" → name ≠ "arr" → σ' name = threeElements name := by
  have next : Watch.PlainElement ⟨"arr", .strict⟩ (elementAt nextPlace) :=
    ⟨nextPlace, Watch.elementIndex?_index,
      .sum _ (.inl rfl) (.ident _ (by decide +kernel)) (.number _ (by decide +kernel))⟩
  have last : Watch.PlainElement ⟨"arr", .strict⟩ (elementAt (named "j")) :=
    ⟨named "j", Watch.elementIndex?_index, .ident _ (by decide +kernel)⟩
  have array : threeElements "arr" = .array [5, 7, 9] := by decide +kernel
  refine executeAll_exchangesThrough ⟨"arr", .strict⟩ rfl rfl rfl (by decide +kernel) ?_
    ⟨by decide +kernel, by decide +kernel⟩ array
    ((Watch.standsAt_index array).mpr ⟨by decide +kernel, by decide⟩)
    ((Watch.standsAt_index array).mpr ⟨by decide +kernel, by decide⟩)
  simp only [List.forall_mem_cons]
  exact ⟨next, next, last, last, by simp⟩

def overlappingText : String := "i = arr[i]; arr[i] = arr[j]; arr[j] = i;"

def twoElements (name : String) : Value :=
  if name = "arr" then .array [1, 0] else if name = "j" then .int 1 else .int 0

def Watch.namesElement (w : Watch) (e : Expr) : Bool :=
  match w.elementIndex? e with
  | some (.ident name _) => isIdentifier name
  | _ => false

def lastArray? (σ : Store) (ss : List Stmt) : Option Value :=
  (σ.executeAll ss).map fun σ' => σ' "arr"

def leavesOnes (w : Watch) : List Stmt → Bool
  | [save, shift, restore] =>
    match saved? save, assigned? shift, assigned? restore with
    | some (_, x), some (x', y), some (y', _) =>
      w.exchangesThrough save shift restore && [x, x', y, y'].all w.namesElement &&
      ((w.elementIndex? x).bind (Store.evaluate twoElements) == some (.int 0)) &&
      ((w.elementIndex? y).bind (Store.evaluate twoElements) == some (.int 1)) &&
      (lastArray? twoElements [save, shift, restore] == some (.array [1, 1]))
    | _, _, _ => false
  | _ => false

theorem Watch.plainElement_of_namesElement {w : Watch} {e : Expr} (found : w.namesElement e = true) :
    w.PlainElement e := by
  unfold namesElement at found
  split at found
  · rename_i index
    exact ⟨_, index, .ident _ found⟩
  · cases found

/-- The variable is read again as an index after it has got a value, and one element is lost. -/
theorem exchangesThrough_overlapping : ∃ p save shift restore t x x' y y' t',
    Program.ofText overlappingText = .ok p ∧ p.body = [save, shift, restore] ∧
    saved? save = some (t, x) ∧ assigned? shift = some (x', y) ∧
    assigned? restore = some (y', t') ∧
    Watch.exchangesThrough ⟨"arr", .strict⟩ save shift restore = true ∧
    (∀ e ∈ [x, x', y, y'], Watch.PlainElement ⟨"arr", .strict⟩ e) ∧
    ∃ (σ : Store) (xs : List Int) (m n : Nat) (σ' : Store) (ys : List Int),
      σ "arr" = .array xs ∧ Watch.StandsAt ⟨"arr", .strict⟩ σ x m ∧
      Watch.StandsAt ⟨"arr", .strict⟩ σ y n ∧
      σ.executeAll [save, shift, restore] = some σ' ∧ σ' "arr" = .array ys ∧
      ¬ Exchanged m n xs ys := by
  have seen : ((Program.ofText overlappingText).toOption.map fun p =>
      leavesOnes ⟨"arr", .strict⟩ p.body) = some true := by decide +kernel
  obtain ⟨p, read, seen⟩ := Option.map_eq_some_iff.mp seen
  have read := ok_of_toOption read
  unfold leavesOnes at seen
  split at seen
  · rename_i save shift restore body
    split at seen
    · rename_i t x x' y y' t' saved shifted restored
      simp only [Bool.and_eq_true, List.all_eq_true, beq_iff_eq] at seen
      obtain ⟨⟨⟨⟨swaps, names⟩, first⟩, second⟩, last⟩ := seen
      obtain ⟨i, index, atFirst⟩ := Option.bind_eq_some_iff.mp first
      obtain ⟨j, index', atSecond⟩ := Option.bind_eq_some_iff.mp second
      obtain ⟨σ', run, after⟩ := Option.map_eq_some_iff.mp last
      have array : twoElements "arr" = .array [1, 0] := by decide +kernel
      refine ⟨p, save, shift, restore, t, x, x', y, y', t', read, body, saved, shifted, restored,
        swaps, fun e member => Watch.plainElement_of_namesElement (names e member),
        twoElements, [1, 0], 0, 1, σ', [1, 1], array, ⟨i, _, index, atFirst, array, by decide⟩,
        ⟨j, _, index', atSecond, array, by decide⟩, run, after, fun exchanged => ?_⟩
      cases exchanged.first
    · cases seen
  · cases seen

end Synthesis

end SortTrace
