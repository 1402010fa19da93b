import SortTrace.Proofs.Script.ElementTexts
import SortTrace.Proofs.Script.Parsed
import SortTrace.Proofs.Synthesis.PatternCases
import SortTrace.Proofs.Synthesis.PolicyPatterns

/-!
The recognizers agree. Shapes ask which elements stand where, patterns also for written positions: an
exchange with written positions is a swap of those, and a comparison of elements is a pattern wherever the
policy can do with its positions.
-/

namespace SortTrace

namespace Script

inductive Expr.Destructures : Expr → (l₁ l₂ r₁ r₂ : Expr) → Prop
  | mk (l₁ l₂ r₁ r₂ : Expr) (s s' s'' : Span) :
      Destructures (.assign .assign (.array [l₁, l₂] s) (.array [r₁, r₂] s') s'') l₁ l₂ r₁ r₂

end Script

namespace Synthesis

open Script

def Mismatch.InOnePlace : Mismatch → Prop
  | arity _ | reversed _ => False
  | _ => True

namespace Watch

variable {w : Watch}

theorem elementIndex?_eq_some {e index : Expr} :
    w.elementIndex? e = some index ↔ ∃ s t, e = .index (.ident w.name s) index t := by
  constructor
  · intro found
    unfold elementIndex? at found
    cases e with
    | index object index' t =>
      simp only [Expr.indexed?] at found
      split at found
      · rename_i named
        cases found
        cases object with
        | ident name s =>
          cases named
          exact ⟨s, t, rfl⟩
        | _ => cases named
      · cases found
    | _ => cases found
  · rintro ⟨s, t, rfl⟩
    simp [elementIndex?, Expr.indexed?, Expr.name?]

theorem isElement_iff {e : Expr} :
    w.isElement e = true ↔ ∃ s index t, e = .index (.ident w.name s) index t := by
  rw [isElement, Option.isSome_iff_exists]
  simp only [elementIndex?_eq_some]
  constructor
  · rintro ⟨index, s, t, same⟩
    exact ⟨s, index, t, same⟩
  · rintro ⟨s, index, t, same⟩
    exact ⟨index, s, t, same⟩

theorem position_eq_ok {e : Expr} {i : Nat} :
    w.position e = .ok i ↔ w.isElement e = true ∧ e.IndexedAt i := by
  constructor
  · intro known
    unfold position at known
    split at known
    · cases known
    · rename_i index element
      split at known
      · rename_i n known'
        cases known
        obtain ⟨x, number, place⟩ := Option.bind_eq_some_iff.mp known'
        obtain ⟨n, whole, rfl⟩ := Numeral.Signed.toIndex?_eq_some.mp place
        obtain ⟨s, t, rfl⟩ := elementIndex?_eq_some.mp element
        exact ⟨isElement_iff.mpr ⟨s, index, t, rfl⟩, .mk number whole⟩
      · cases known
  · rintro ⟨element, indexed⟩
    obtain ⟨s, index, t, rfl⟩ := isElement_iff.mp element
    have found : w.elementIndex? (.index (.ident w.name s) index t) = some index :=
      elementIndex?_eq_some.mpr ⟨s, t, rfl⟩
    cases indexed with
    | mk number whole =>
      have place := Numeral.Signed.toIndex?_eq_some.mpr ⟨_, whole, rfl⟩
      simp only [position, found, number, Option.bind_some, place]

theorem exchangesElements_cases {e : Expr} : w.exchangesElements e = true ↔
    ∃ l₁ l₂ r₁ r₂, e.Destructures l₁ l₂ r₁ r₂ ∧ w.isElement l₁ = true ∧ w.isElement l₂ = true ∧
      sameText r₁ l₂ = true ∧ sameText r₂ l₁ = true := by
  constructor
  · intro exchanges
    unfold exchangesElements at exchanges
    split at exchanges
    · simp only [Bool.and_eq_true] at exchanges
      obtain ⟨⟨⟨first, second⟩, crossed⟩, crossed'⟩ := exchanges
      exact ⟨_, _, _, _, .mk .., first, second, crossed, crossed'⟩
    · cases exchanges
  · rintro ⟨l₁, l₂, r₁, r₂, ⟨⟩, first, second, crossed, crossed'⟩
    simp only [exchangesElements, first, second, crossed, crossed', Bool.and_self]

theorem recognize_exchange {e l₁ l₂ r₁ r₂ : Expr} (shape : e.Destructures l₁ l₂ r₁ r₂)
    (exchanges : w.exchangesElements e = true) :
    w.recognize e = w.position l₁ >>= fun i => w.position l₂ >>= fun j => .ok (.swap i j) := by
  obtain ⟨l₁, l₂, r₁, r₂, s, s', s''⟩ := shape
  have crossed : (sameText r₁ l₂ && sameText r₂ l₁) = true := by
    obtain ⟨_, _, _, _, ⟨⟩, -, -, first, second⟩ := exchangesElements_cases.mp exchanges
    rw [first, second]
    rfl
  rw [recognize, if_pos exchanges]
  simp only [swapPattern, Expr.items?, crossed, if_true]
  rfl

theorem pattern_eq_swap {e : Expr} {i j : Nat} : w.pattern e = .swap i j ↔
    w.exchangesElements e = true ∧
      ∃ l₁ l₂ r₁ r₂, e.Destructures l₁ l₂ r₁ r₂ ∧ l₁.IndexedAt i ∧ l₂.IndexedAt j := by
  constructor
  · intro swap
    have exchanges := exchangesElements_of_swap swap
    obtain ⟨l₁, l₂, r₁, r₂, shape, -⟩ := exchangesElements_cases.mp exchanges
    have recognized := recognize_of_pattern (by simp) swap
    rw [recognize_exchange shape exchanges] at recognized
    obtain ⟨i', first, recognized⟩ := ok_of_bind recognized
    obtain ⟨j', second, recognized⟩ := ok_of_bind recognized
    cases recognized
    exact ⟨exchanges, l₁, l₂, r₁, r₂, shape, (position_eq_ok.mp first).2,
      (position_eq_ok.mp second).2⟩
  · rintro ⟨exchanges, l₁, l₂, r₁, r₂, shape, first, second⟩
    have elements : w.isElement l₁ = true ∧ w.isElement l₂ = true := by
      obtain ⟨_, _, _, _, same, first, second, -⟩ := exchangesElements_cases.mp exchanges
      cases shape
      cases same
      exact ⟨first, second⟩
    have first := position_eq_ok.mpr ⟨elements.1, first⟩
    have second := position_eq_ok.mpr ⟨elements.2, second⟩
    rw [pattern, recognize_exchange shape exchanges, first, second]
    rfl

theorem indexedAt_of_sameText {a b : Expr} {n : Nat} (left : a.isSpelled = true)
    (right : b.isSpelled = true) (element : w.isElement b = true) (indexed : b.IndexedAt n)
    (same : sameText a b = true) : a.IndexedAt n ∧ (w.name ≠ "inf" → w.isElement a = true) := by
  obtain ⟨s, index, t, rfl⟩ := isElement_iff.mp element
  have identifier : isIdentifier w.name = true := by
    simp only [Expr.isSpelled, Bool.and_eq_true] at right
    exact right.1
  obtain ⟨position, object, index', t', rfl, named⟩ :=
    indexedAt_of_text left identifier indexed (beq_iff_eq.mp same)
  refine ⟨position, fun finite => ?_⟩
  obtain ⟨s', rfl⟩ := named.resolve_right finite
  exact isElement_iff.mpr ⟨s', index', t', rfl⟩

theorem swap_crosses {e l₁ l₂ r₁ r₂ : Expr} {i j : Nat} (spelled : e.isSpelled = true)
    (shape : e.Destructures l₁ l₂ r₁ r₂) (swap : w.pattern e = .swap i j) :
    r₁.IndexedAt j ∧ r₂.IndexedAt i ∧
      (w.name ≠ "inf" → w.isElement r₁ = true ∧ w.isElement r₂ = true) := by
  obtain ⟨exchanges, _, _, _, _, ⟨⟩, first, second⟩ := pattern_eq_swap.mp swap
  obtain ⟨_, _, _, _, ⟨⟩, element, element', crossed, crossed'⟩ :=
    exchangesElements_cases.mp exchanges
  cases shape
  simp only [Expr.isSpelled, Expr.areSpelled, Bool.and_eq_true, Bool.and_true] at spelled
  obtain ⟨⟨-, left, left'⟩, right, right'⟩ := spelled
  obtain ⟨position, named⟩ := indexedAt_of_sameText right left' element' second crossed
  obtain ⟨position', named'⟩ := indexedAt_of_sameText right' left element first crossed'
  exact ⟨position, position', fun finite => ⟨named finite, named' finite⟩⟩

theorem holdsSwap_of_swap {ss : List Stmt} {s : Stmt} {i j : Nat} (member : s ∈ ss)
    (swap : w.stmtPattern s = .swap i j) : w.holdsSwap ss = true := by
  induction ss with
  | nil => cases member
  | cons first rest ih =>
    rw [holdsSwap, Bool.or_eq_true]
    rcases List.mem_cons.mp member with rfl | member
    · refine .inl ?_
      cases s with
      | expr e _ =>
        have exchanges : w.exchangesElements e = true := exchangesElements_of_swap swap
        change (w.exchangesElements e || _) = true
        rw [exchanges, Bool.true_or]
      | _ => cases swap
    · exact .inr (ih member)

theorem position_error {e : Expr} {why : Mismatch} (failed : w.position e = .error why) :
    why.InOnePlace := by
  unfold position at failed
  split at failed
  · cases failed
    trivial
  · split at failed <;> cases failed
    trivial

theorem comparedPosition_error {e : Expr} {n : Nat} {why : Mismatch}
    (failed : w.comparedPosition e n = .error why) : why.InOnePlace := by
  unfold comparedPosition at failed
  split at failed
  · cases failed
  · cases failed
  · rename_i unknown _
    cases failed
    exact position_error unknown

theorem recognize_error {e : Expr} {why : Mismatch} (failed : w.recognize e = .error why) :
    why.InOnePlace := by
  by_cases exchanges : w.exchangesElements e = true
  · obtain ⟨l₁, l₂, r₁, r₂, shape, -⟩ := exchangesElements_cases.mp exchanges
    rw [recognize_exchange shape exchanges] at failed
    rcases error_of_bind failed with first | ⟨i, -, failed⟩
    · exact position_error first
    rcases error_of_bind failed with second | ⟨j, -, failed⟩
    · exact position_error second
    · cases failed
  unfold recognize at failed
  split at failed
  · split at failed <;> cases failed
    trivial
  · split at failed
    · rw [if_neg exchanges] at failed
      cases failed
      trivial
    · split at failed
      · rcases error_of_bind failed with target | ⟨i, -, failed⟩
        · exact position_error target
        · split at failed <;> cases failed
          trivial
      · cases failed
        trivial
    · cases failed
      trivial
  · split at failed
    · unfold comparisonPattern at failed
      split at failed
      · rcases error_of_bind failed with first | ⟨i, -, failed⟩
        · exact comparedPosition_error first
        rcases error_of_bind failed with second | ⟨j, -, failed⟩
        · exact comparedPosition_error second
        · cases failed
      · cases failed
        trivial
    · cases failed
      trivial
  · cases failed
    trivial

theorem ofSymbol?_of_isComparison {op : BinOp} (comparison : op.isComparison = true) :
    ∃ r, Relation.ofSymbol? op.text = some r := by
  cases op <;> first | exact ⟨_, rfl⟩ | cases comparison

theorem comparesElements_iff {e : Expr} : w.comparesElements e = true ↔ ∃ l op r s,
    e = .binary l op r s ∧ op.isComparison = true ∧ (w.isElement l = true ∨ w.isElement r = true) := by
  constructor
  · intro compares
    unfold comparesElements at compares
    split at compares
    · simp only [Bool.and_eq_true, Bool.or_eq_true] at compares
      exact ⟨_, _, _, _, rfl, compares⟩
    · cases compares
  · rintro ⟨l, op, r, s, rfl, comparison, elements⟩
    simp only [comparesElements, Bool.and_eq_true, Bool.or_eq_true]
    exact ⟨comparison, elements⟩

theorem recognize_comparison {l r : Expr} {op : BinOp} {s : Span}
    (compares : w.comparesElements (.binary l op r s) = true) :
    w.recognize (.binary l op r s) = w.comparisonPattern l op r := if_pos compares

section

variable {name : String}

theorem pattern_placed {e : Expr} (compares : (placed name).comparesElements e = true) :
    ∃ r i j, (placed name).pattern e = .comparison r i j := by
  obtain ⟨lhs, op, rhs, s, rfl, comparison, -⟩ := comparesElements_iff.mp compares
  obtain ⟨x, symbol⟩ := ofSymbol?_of_isComparison comparison
  obtain ⟨i, j, known⟩ := @comparisonPattern_placed name lhs rhs op x symbol
  exact ⟨x, i, j, by rw [pattern, recognize_comparison compares, known]⟩

theorem comparedPosition_eq_position (e : Expr) (n : Nat) :
    (strict name).comparedPosition e n = (strict name).position e := by
  unfold comparedPosition
  cases (strict name).position e <;> rfl

theorem pattern_strict {lhs rhs : Expr} {op : BinOp} {s : Span} {i j : Nat}
    (compares : (strict name).comparesElements (.binary lhs op rhs s) = true) :
    (∃ r, (strict name).pattern (.binary lhs op rhs s) = .comparison r i j) ↔
      ((strict name).isElement lhs = true ∧ lhs.IndexedAt i) ∧
        ((strict name).isElement rhs = true ∧ rhs.IndexedAt j) := by
  obtain ⟨_, _, _, _, ⟨⟩, comparison, -⟩ := comparesElements_iff.mp compares
  obtain ⟨x, symbol⟩ := ofSymbol?_of_isComparison comparison
  rw [← position_eq_ok, ← position_eq_ok]
  constructor
  · rintro ⟨r, found⟩
    have recognized := recognize_of_pattern (by simp) found
    rw [recognize_comparison compares] at recognized
    obtain ⟨_, i', j', first, second, same⟩ := comparisonPattern_ok recognized
    cases same
    rw [comparedPosition_eq_position] at first second
    exact ⟨first, second⟩
  · rintro ⟨first, second⟩
    refine ⟨x, ?_⟩
    rw [pattern, recognize_comparison compares]
    simp only [comparisonPattern, symbol, comparedPosition_eq_position, first, second]
    rfl

theorem pattern_placed_of_strict {e : Expr} {p : Pattern} (known : p ≠ .unrecognized)
    (found : (strict name).pattern e = p) : (placed name).pattern e = p := by
  rcases pattern_policy name e with same | ⟨-, -, unknown⟩
  · rw [← same, found]
  · rw [unknown] at found
    exact absurd found.symm known

end

/-- Shapes and patterns agree on every expression that was read. A swap is an exchange whose left elements
are indexed by written positions; the right ones are indexed by the same positions crosswise, and only the
name of infinity can stand there for anything but the watched array. So extracting never fails between
the two sides, and among statements a swap is an exchange. A comparison is one of elements, and one of
elements is a comparison: always where unknown positions get placeholders, and strictly just if both
operands are elements at written positions. What is known strictly is known with placeholders too. -/
theorem recognizers_agree (w : Watch) {e : Expr} (parsed : e.IsParsed) :
    (∀ i j, w.pattern e = .swap i j ↔ w.exchangesElements e = true ∧
      ∃ l₁ l₂ r₁ r₂, e.Destructures l₁ l₂ r₁ r₂ ∧ l₁.IndexedAt i ∧ l₂.IndexedAt j) ∧
    (∀ i j l₁ l₂ r₁ r₂, w.pattern e = .swap i j → e.Destructures l₁ l₂ r₁ r₂ →
      r₁.IndexedAt j ∧ r₂.IndexedAt i ∧
        (w.name ≠ "inf" → w.isElement r₁ = true ∧ w.isElement r₂ = true)) ∧
    ((∀ found, w.recognize e ≠ .error (.arity found)) ∧
      ∀ text, w.recognize e ≠ .error (.reversed text)) ∧
    (∀ ss s i j, s ∈ ss → w.stmtPattern s = .swap i j → w.holdsSwap ss = true) ∧
    (∀ r i j, w.pattern e = .comparison r i j → w.comparesElements e = true) ∧
    ((placed w.name).comparesElements e = true →
      ∃ r i j, (placed w.name).pattern e = .comparison r i j) ∧
    (∀ lhs op rhs s, e = .binary lhs op rhs s → (strict w.name).comparesElements e = true →
      ∀ i j, (∃ r, (strict w.name).pattern e = .comparison r i j) ↔
        (w.isElement lhs = true ∧ lhs.IndexedAt i) ∧ (w.isElement rhs = true ∧ rhs.IndexedAt j)) ∧
    ∀ p, p ≠ .unrecognized → (strict w.name).pattern e = p → (placed w.name).pattern e = p := by
  refine ⟨fun i j => pattern_eq_swap, fun i j l₁ l₂ r₁ r₂ swap shape => ?_, ⟨?_, ?_⟩, ?_,
    fun r i j => comparesElements_of_comparison, pattern_placed, ?_, fun p => pattern_placed_of_strict⟩
  · exact swap_crosses parsed.isSpelled shape swap
  · exact fun found failed => recognize_error failed
  · exact fun text failed => recognize_error failed
  · exact fun ss s i j member swap => holdsSwap_of_swap member swap
  · rintro lhs op rhs s rfl compares i j
    exact pattern_strict compares

def writtenSwapText : String := "[a[+0], a[2]] = [a[2], a[+0]];"

theorem recognizers_agree_signed : ∃ p e l₁ l₂ r₁ r₂,
    Program.ofText writtenSwapText = .ok p ∧ e ∈ p.exprs ∧ e.Destructures l₁ l₂ r₁ r₂ ∧
      (Watch.mk "a" .strict).exchangesElements e = true ∧ l₁.IndexedAt 0 ∧ l₂.IndexedAt 2 ∧
      r₁.IndexedAt 2 ∧ r₂.IndexedAt 0 := by
  let w : Watch := ⟨"a", .strict⟩
  have seen : ((Program.ofText writtenSwapText).toOption.map fun p =>
      p.exprs.any fun e => w.pattern e == .swap 0 2) = some true := by decide +kernel
  obtain ⟨p, read, seen⟩ := Option.map_eq_some_iff.mp seen
  have read := ok_of_toOption read
  obtain ⟨e, member, swap⟩ := List.any_eq_true.mp seen
  have swap : w.pattern e = .swap 0 2 := beq_iff_eq.mp swap
  obtain ⟨left, right, -⟩ := recognizers_agree w (.inProgram read member)
  obtain ⟨exchanges, l₁, l₂, r₁, r₂, shape, first, second⟩ := (left 0 2).mp swap
  obtain ⟨crossed, crossed', -⟩ := right 0 2 l₁ l₂ r₁ r₂ swap shape
  exact ⟨p, e, l₁, l₂, r₁, r₂, read, member, shape, exchanges, first, second, crossed, crossed'⟩

end Watch

end Synthesis

end SortTrace
