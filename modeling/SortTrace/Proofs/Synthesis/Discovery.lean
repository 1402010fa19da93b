import Mathlib.Data.List.Forall2
import SortTrace.Proofs.Numeral.Truncated
import SortTrace.Proofs.Results
import SortTrace.Proofs.Script.Contained
import SortTrace.Synthesis.TrackedArray

/-!
Which array a script works on: the first one, by where the variable stands in the text, that a variable
starts with as a literal.
-/

namespace SortTrace.Synthesis

open Script Numeral

/-- The value of an element of an array literal. Only a number can have another value than 0, alone or
behind one sign. -/
inductive ElementValue : Expr → Int64 → Prop
  | number {m : Magnitude} {s : Span} {v : Int64} : Signed.Truncates ⟨false, m⟩ v →
      ElementValue (.number m s) v
  | negated {m : Magnitude} {s s' : Span} {v : Int64} : Signed.Truncates ⟨true, m⟩ v →
      ElementValue (.unary .neg (.number m s) s') v
  | positive {m : Magnitude} {s s' : Span} {v : Int64} : Signed.Truncates ⟨false, m⟩ v →
      ElementValue (.unary .plus (.number m s) s') v
  | other {e : Expr} : (∀ m s, e ≠ .number m s) →
      (∀ op m s s', e = .unary op (.number m s) s' → op ≠ .neg ∧ op ≠ .plus) → ElementValue e 0

theorem elementValue_iff {e : Expr} {v : Int64} :
    ElementValue e v ↔ v = TrackedArray.elementValue e := by
  constructor
  · rintro (value | value | value | ⟨plain, signed⟩)
    · exact Signed.truncates_iff.mp value
    · exact Signed.truncates_iff.mp value
    · exact Signed.truncates_iff.mp value
    · have none : e.number? = none := by
        unfold Expr.number?
        split
        · exact absurd rfl (plain _ _)
        · exact absurd rfl (signed _ _ _ _ rfl).1
        · exact absurd rfl (signed _ _ _ _ rfl).2
        · rfl
      rw [TrackedArray.elementValue, none]
  · rintro rfl
    have value {m : Magnitude} {negative : Bool} :
        Signed.Truncates ⟨negative, m⟩ (Signed.toInt64 ⟨negative, m⟩) := Signed.truncates_iff.mpr rfl
    unfold TrackedArray.elementValue Expr.number?
    split
    · rename_i x found
      split at found
      · cases found
        exact .number value
      · cases found
        exact .negated value
      · cases found
        exact .positive value
      · cases found
    · rename_i found
      split at found
      · cases found
      · cases found
      · cases found
      · rename_i plain neg plus
        refine .other plain fun op m s s' shape => ⟨?_, ?_⟩
        · rintro rfl
          exact neg m s s' shape
        · rintro rfl
          exact plus m s s' shape

theorem elementValues_iff {items : List Expr} {values : List Int64} :
    List.Forall₂ ElementValue items values ↔ values = items.map TrackedArray.elementValue := by
  have same : ElementValue = fun e v => v = TrackedArray.elementValue e :=
    funext fun e => funext fun v => propext elementValue_iff
  rw [same, eq_comm, ← List.forall₂_eq_eq_eq, List.forall₂_map_left_iff]
  simp only [eq_comm]

/-- A variable anywhere in the script, function bodies included, that starts as an array literal. -/
def StartsAsArray (p : Program) (d : Declarator) (items : List Expr) : Prop :=
  (Node.program p).Contains (fun _ => false) (.declarator d) ∧ ∃ s, d.init = some (.array items s)

structure FirstArray (p : Program) (d : Declarator) (items : List Expr) : Prop where
  starts : StartsAsArray p d items
  first : ∀ d' items', StartsAsArray p d' items' → d' = d ∨ d.span.start < d'.span.start

theorem FirstArray.unique {p : Program} {d d' : Declarator} {items items' : List Expr}
    (array : FirstArray p d items) (other : FirstArray p d' items') : d' = d ∧ items' = items := by
  have same : d' = d := by
    rcases array.first d' items' other.starts with same | later
    · exact same
    · rcases other.first d items array.starts with same | sooner
      · exact same.symm
      · omega
  subst same
  obtain ⟨-, s, init⟩ := array.starts
  obtain ⟨-, s', init'⟩ := other.starts
  rw [init] at init'
  cases init'
  exact ⟨rfl, rfl⟩

namespace TrackedArray

theorem ofDeclarator?_eq_some {d : Declarator} {a : TrackedArray} : ofDeclarator? d = some a ↔
    ∃ items s, d.init = some (.array items s) ∧ a = ⟨d.name, items.map elementValue⟩ := by
  rcases d with ⟨name, _ | e, s⟩
  · simp [ofDeclarator?, Declarator.init]
  · cases e <;> simp [ofDeclarator?, Declarator.init, Expr.items?, eq_comm]

variable {text : String} {p : Program}

theorem startsAsArray_iff {d : Declarator} {items : List Expr} : StartsAsArray p d items ↔
    d ∈ p.declarators ∧ ∃ s, d.init = some (.array items s) :=
  and_congr_left fun _ => Program.mem_declarators_iff.symm

theorem findSome?_eq_none : p.declarators.findSome? ofDeclarator? = none ↔
    ∀ d items, ¬ StartsAsArray p d items := by
  rw [List.findSome?_eq_none_iff]
  constructor
  · intro none d items starts
    obtain ⟨member, s, init⟩ := startsAsArray_iff.mp starts
    have found := ofDeclarator?_eq_some.mpr ⟨items, s, init, rfl⟩
    rw [none d member] at found
    cases found
  · intro none d member
    refine Option.eq_none_iff_forall_ne_some.mpr fun a found => ?_
    obtain ⟨items, s, init, -⟩ := ofDeclarator?_eq_some.mp found
    exact none d items (startsAsArray_iff.mpr ⟨member, s, init⟩)

section

variable (read : Program.ofText text = .ok p)

include read

theorem firstArray_of_findSome? {a : TrackedArray}
    (found : p.declarators.findSome? ofDeclarator? = some a) :
    ∃ d items, FirstArray p d items ∧ a = ⟨d.name, items.map elementValue⟩ := by
  obtain ⟨before, d, after, split, here, none⟩ := List.findSome?_eq_some_iff.mp found
  obtain ⟨items, s, init, rfl⟩ := ofDeclarator?_eq_some.mp here
  refine ⟨d, items, ⟨startsAsArray_iff.mpr ⟨by simp [split], s, init⟩, fun d' items' other => ?_⟩, rfl⟩
  obtain ⟨member, s', init'⟩ := startsAsArray_iff.mp other
  have apart := Program.ofText_declarators_apart read
  rw [split] at member apart
  rcases List.mem_append.mp member with early | late
  · -- What was passed over does not start as an array.
    have found := ofDeclarator?_eq_some.mpr ⟨items', s', init', rfl⟩
    rw [none d' early] at found
    cases found
  · rcases List.mem_cons.mp late with same | late
    · exact .inl same
    · exact .inr (List.rel_of_pairwise_cons (List.pairwise_append.mp apart).2.1 late)

theorem findSome?_eq_some {a : TrackedArray} : p.declarators.findSome? ofDeclarator? = some a ↔
    ∃ d items, FirstArray p d items ∧ a = ⟨d.name, items.map elementValue⟩ := by
  refine ⟨firstArray_of_findSome? read, ?_⟩
  rintro ⟨d, items, array, rfl⟩
  cases found : p.declarators.findSome? ofDeclarator? with
  | none => exact absurd array.starts (findSome?_eq_none.mp found d items)
  | some a =>
    obtain ⟨d', items', other, rfl⟩ := firstArray_of_findSome? read found
    obtain ⟨rfl, rfl⟩ := array.unique other
    rfl

theorem ofProgram_firstArray {d : Declarator} {items : List Expr} (array : FirstArray p d items) :
    ofProgram p = if items = [] then .error (.empty d.name) else .ok ⟨d.name, items.map elementValue⟩ := by
  rw [ofProgram, (findSome?_eq_some read).mpr ⟨d, items, array, rfl⟩]
  cases items <;> rfl

/-- The array of a script is the literal of the first variable, in the text, that starts as one. There is
none if no variable does so, or if that literal is empty. -/
theorem ofProgram_first :
    (∀ a, ofProgram p = .ok a ↔ ∃ d items, FirstArray p d items ∧ items ≠ [] ∧ a.name = d.name ∧
      List.Forall₂ ElementValue items a.values) ∧
    ∀ why, ofProgram p = .error why ↔
      (why = .noLiteral ∧ ∀ d items, ¬ StartsAsArray p d items) ∨
      ∃ d, FirstArray p d [] ∧ why = .empty d.name := by
  constructor
  · intro a
    constructor
    · intro found
      obtain ⟨b, first⟩ : ∃ b, p.declarators.findSome? ofDeclarator? = some b := by
        cases first : p.declarators.findSome? ofDeclarator? with
        | some b => exact ⟨b, rfl⟩
        | none => simp [ofProgram, first] at found
      obtain ⟨d, items, array, -⟩ := firstArray_of_findSome? read first
      rw [ofProgram_firstArray read array] at found
      split at found
      · cases found
      · rename_i full
        cases found
        exact ⟨d, items, array, full, rfl, elementValues_iff.mpr rfl⟩
    · rintro ⟨d, items, array, full, named, values⟩
      obtain ⟨name, vs⟩ := a
      obtain rfl := elementValues_iff.mp values
      obtain rfl : name = d.name := named
      rw [ofProgram_firstArray read array, if_neg full]
  · intro why
    cases first : p.declarators.findSome? ofDeclarator? with
    | none =>
      have none := findSome?_eq_none.mp first
      constructor
      · intro found
        simp only [ofProgram, first] at found
        cases found
        exact .inl ⟨rfl, none⟩
      · rintro (⟨rfl, -⟩ | ⟨d, array, -⟩)
        · simp only [ofProgram, first]
        · exact absurd array.starts (none d [])
    | some b =>
      obtain ⟨d, items, array, -⟩ := firstArray_of_findSome? read first
      constructor
      · intro found
        rw [ofProgram_firstArray read array] at found
        split at found
        · rename_i empty
          cases found
          subst empty
          exact .inr ⟨d, array, rfl⟩
        · cases found
      · rintro (⟨rfl, none⟩ | ⟨d', other, rfl⟩)
        · exact absurd array.starts (none d items)
        · rw [ofProgram_firstArray read other, if_pos rfl]

end

/-- The array in the function stands before the one beside it. -/
def arrowText : String := "let f=()=>\x7blet a=[3,-2.9,'x',1e20]\x7d,b=[1]"

theorem ofProgram_arrow : ∃ p a d items, Program.ofText arrowText = .ok p ∧ ofProgram p = .ok a ∧
    a = ⟨"a", [3, -2, 0, Int64.maxValue]⟩ ∧ FirstArray p d items ∧ a.name = d.name ∧
    List.Forall₂ ElementValue items a.values := by
  have seen : ((Program.ofText arrowText).toOption.bind fun p => (ofProgram p).toOption) =
      some ⟨"a", [3, -2, 0, Int64.maxValue]⟩ := by decide +kernel
  obtain ⟨p, read, found⟩ := Option.bind_eq_some_iff.mp seen
  have read := ok_of_toOption read
  have found := ok_of_toOption found
  obtain ⟨tracked, -⟩ := ofProgram_first read
  obtain ⟨d, items, array, -, named, values⟩ := (tracked _).mp found
  exact ⟨p, _, d, items, read, found, rfl, array, named, values⟩

end TrackedArray

end SortTrace.Synthesis
