import SortTrace.Proofs.Numeral.ReadBack
import SortTrace.Proofs.Numeral.Truncated
import SortTrace.Proofs.Script.EqualTexts

/-!
Elements at written positions. What prints like an indexed name with a number for its index is such an
element itself, with the same number; only an infinite number may stand in the place of the name.
-/

namespace SortTrace

namespace Script

open Numeral

def IsPlainText (text : String) : Prop := '\x60' ∉ text.toList ∧ '\x7b' ∉ text.toList

instance (text : String) : Decidable (IsPlainText text) :=
  inferInstanceAs (Decidable ('\x60' ∉ text.toList ∧ '\x7b' ∉ text.toList))

theorem isPlainText_append {left right : String} :
    IsPlainText (left ++ right) ↔ IsPlainText left ∧ IsPlainText right := by
  simp only [IsPlainText, String.toList_append, List.mem_append, not_or]
  exact and_and_and_comm

theorem IsPlainText.inside {e : Expr} {least : Nat} {text : String}
    (plain : IsPlainText (e.inPlace least text)) : IsPlainText text := by
  unfold Expr.inPlace at plain
  split at plain
  · rw [isPlainText_append, isPlainText_append] at plain
    exact plain.1.2
  · exact plain

theorem not_isPlainText_header (f : Func) : ¬ IsPlainText f.header := by
  unfold Func.header
  intro plain
  split at plain
  all_goals exact (isPlainText_append.mp plain).2.2 (by decide)

mutual

/-- The text of a function has a brace, that of a template grave accents. -/
theorem Expr.isClear_of_text : ∀ e : Expr, IsPlainText e.text → e.isClear = true
  | .number .. | .str .. | .bool .. | .null _ | .ident .. => fun _ => rfl
  | .template v _ => by
    intro plain
    simp only [Expr.text, isPlainText_append] at plain
    exact absurd (by decide) plain.1.1.1
  | .func f _ => fun plain => absurd plain (not_isPlainText_header f)
  | .array items _ => by
    intro plain
    simp only [Expr.text, isPlainText_append] at plain
    exact Expr.areClear_of_listText items plain.1.2
  | .unary _ e _ => by
    intro plain
    simp only [Expr.text, isPlainText_append] at plain
    exact e.isClear_of_text plain.2.inside
  | .update _ before e _ => by
    intro plain
    cases before <;>
      simp only [Expr.text, isPlainText_append, if_true, Bool.false_eq_true, if_false] at plain
    · exact e.isClear_of_text plain.1.inside
    · exact e.isClear_of_text plain.2.inside
  | .member o _ _ => by
    intro plain
    simp only [Expr.text, isPlainText_append] at plain
    exact o.isClear_of_text plain.1.1.inside
  | .binary l _ r _ => by
    intro plain
    simp only [Expr.text, isPlainText_append] at plain
    rw [Expr.isClear, l.isClear_of_text plain.1.1.1.1.inside, r.isClear_of_text plain.2.inside]
    rfl
  | .assign _ t v _ => by
    intro plain
    simp only [Expr.text, isPlainText_append] at plain
    rw [Expr.isClear, t.isClear_of_text plain.1.1.1.1, v.isClear_of_text plain.2]
    rfl
  | .index o i _ => by
    intro plain
    simp only [Expr.text, isPlainText_append] at plain
    rw [Expr.isClear, o.isClear_of_text plain.1.1.1.inside, i.isClear_of_text plain.1.2]
    rfl
  | .conditional t c a _ => by
    intro plain
    simp only [Expr.text, isPlainText_append] at plain
    rw [Expr.isClear, t.isClear_of_text plain.1.1.1.1.inside, c.isClear_of_text plain.1.1.2,
      a.isClear_of_text plain.2]
    rfl
  | .call f args _ => by
    intro plain
    simp only [Expr.text, isPlainText_append] at plain
    rw [Expr.isClear, f.isClear_of_text plain.1.1.1.inside,
      Expr.areClear_of_listText args plain.1.2]
    rfl

theorem Expr.areClear_of_listText : ∀ es : List Expr, IsPlainText (Expr.listText es) →
    Expr.areClear es = true
  | [] => fun _ => rfl
  | e :: rest => by
    intro plain
    rw [Expr.listText, isPlainText_append] at plain
    rw [Expr.areClear, e.isClear_of_text plain.1, Expr.areClear_of_tailText rest plain.2]
    rfl

theorem Expr.areClear_of_tailText : ∀ es : List Expr, IsPlainText (Expr.tailText es) →
    Expr.areClear es = true
  | [] => fun _ => rfl
  | e :: rest => by
    intro plain
    rw [Expr.tailText, isPlainText_append, isPlainText_append] at plain
    rw [Expr.areClear, e.isClear_of_text plain.1.2, Expr.areClear_of_tailText rest plain.2]
    rfl

end

/-- Indexed by a number that is whole and not below zero. Positions are counted with 64 bits: a larger
number stands for the last one. -/
inductive Expr.IndexedAt : Expr → Nat → Prop
  | mk {object index : Expr} {s : Span} {x : Signed} {n : Nat} : index.number? = some x →
      x.IsWhole n → IndexedAt (.index object index s) (min n (2 ^ 64 - 1))

theorem apparent_step {op : UpdateOp} {e a : Expr} {s : Span} (operand : a.level = 8) :
    (Expr.update op true e s).apparent ≠ a := by
  rintro rfl
  rw [Expr.level_apparent] at operand
  cases operand

theorem apparent_number {e : Expr} {v : Magnitude} {s : Span} (same : e.apparent = .number v s) :
    ∃ s', e = .number v s' := by
  cases e with
  | number v' s' =>
    rw [Expr.apparent] at same
    split at same
    · cases same
    · cases same
      exact ⟨s', rfl⟩
  | update op before e s =>
    cases before with
    | true => exact absurd same (apparent_step rfl)
    | false => cases same
  | _ => cases same

theorem apparent_signed {e : Expr} {op : UnaryOp} {v : Magnitude} {s s' : Span}
    (same : e.apparent = .unary op (.number v s) s') : ∃ t t', e = .unary op (.number v t) t' := by
  cases e with
  | number v' s' =>
    rw [Expr.apparent] at same
    split at same <;> cases same
  | unary op' inner t' =>
    rw [Expr.apparent] at same
    injection same with op operand
    obtain ⟨t, rfl⟩ := apparent_number operand
    rw [op]
    exact ⟨t, t', rfl⟩
  | update op before e s =>
    cases before with
    | true =>
      rw [Expr.apparent] at same
      split at same <;> cases same
    | false => cases same
  | _ => cases same

theorem apparent_index {e o i : Expr} {s : Span} (same : e.apparent = .index o i s) :
    ∃ o' i' s', e = .index o' i' s' ∧ o'.apparent = o ∧ i'.apparent = i := by
  cases e with
  | number v' s' =>
    rw [Expr.apparent] at same
    split at same <;> cases same
  | update op before e s =>
    cases before with
    | true => exact absurd same (apparent_step rfl)
    | false => cases same
  | index o' i' s' =>
    rw [Expr.apparent] at same
    injection same with object index
    exact ⟨o', i', s', rfl, object, index⟩
  | _ => cases same

theorem apparent_ident {e : Expr} {name : String} {s : Span} (same : e.apparent = .ident name s) :
    (∃ s', e = .ident name s') ∨ name = "inf" := by
  cases e with
  | number v s' =>
    rw [Expr.apparent] at same
    split at same
    · rename_i infinite
      injection same with text
      refine .inr ?_
      rw [← text, Magnitude.text, if_pos infinite]
    · cases same
  | ident name' s' =>
    injection same with name
    rw [name]
    exact .inl ⟨s', rfl⟩
  | update op before e s =>
    cases before with
    | true => exact absurd same (apparent_step rfl)
    | false => cases same
  | _ => cases same

theorem number?_cases {e : Expr} {x : Signed} (number : e.number? = some x) :
    (∃ s, e = .number x.magnitude s) ∨
      ∃ op s s', e = .unary op (.number x.magnitude s) s' := by
  unfold Expr.number? at number
  split at number <;> cases number
  · exact .inl ⟨_, rfl⟩
  · exact .inr ⟨_, _, _, rfl⟩
  · exact .inr ⟨_, _, _, rfl⟩

theorem number?_of_apparent {a b : Expr} {x : Signed} (same : a.apparent = b.apparent)
    (number : b.number? = some x) (finite : x.magnitude.isInfinite = false) : a.number? = some x := by
  have plain (s : Span) : (Expr.number x.magnitude s).apparent = .number x.magnitude {} := by
    simp [Expr.apparent, finite]
  rcases number?_cases number with ⟨s, rfl⟩ | ⟨op, s, s', rfl⟩
  · obtain ⟨t, rfl⟩ := apparent_number (same.trans (plain s))
    exact number
  · rw [Expr.apparent, plain] at same
    obtain ⟨t, t', rfl⟩ := apparent_signed same
    cases op <;> exact number

theorem isPlainText_number {v : Magnitude} (finite : v.isInfinite = false) : IsPlainText v.text := by
  have outside {c : Char} (other : c.isDigit = false) (point : c ≠ '.') : c ∉ v.text.toList := by
    have positional := (Magnitude.text_finite finite).1
    intro member
    generalize v.text.toList = cs at positional member
    cases positional with
    | whole _ digits =>
      rw [digits c member] at other
      cases other
    | fraction _ digits _ places =>
      simp only [List.mem_append, List.mem_cons, point, false_or] at member
      rw [member.elim (digits c) (places c)] at other
      cases other
  exact ⟨outside rfl (by decide), outside rfl (by decide)⟩

theorem isPlainText_identifier {name : String} (identifier : isIdentifier name = true) :
    IsPlainText name := by
  obtain ⟨first, tail, text, start, parts⟩ := isWord_chars (isWord_of_isIdentifier identifier)
  have all : ∀ c ∈ name.toList, isNamePart c = true := by
    rw [text]
    exact List.forall_mem_cons.mpr ⟨isNamePart_of_isNameStart start, parts⟩
  constructor
  all_goals
    intro member
    cases all _ member

theorem isPlainText_signed {e : Expr} {x : Signed} (number : e.number? = some x)
    (finite : x.magnitude.isInfinite = false) : IsPlainText e.text := by
  have plain := isPlainText_number finite
  rcases number?_cases number with ⟨s, rfl⟩ | ⟨op, s, s', rfl⟩
  · exact plain
  · have sign : IsPlainText op.text := by cases op <;> decide
    exact isPlainText_append.mpr ⟨sign, plain⟩

theorem isSpelled_of_number? {e : Expr} {x : Signed} (number : e.number? = some x) :
    e.isSpelled = true := by
  rcases number?_cases number with ⟨s, rfl⟩ | ⟨op, s, s', rfl⟩ <;> rfl

/-- What prints like an element at a written position is indexed at that position, and by the name
itself unless that is how an infinite number is printed. -/
theorem indexedAt_of_text {a index : Expr} {name : String} {s t : Span} {n : Nat}
    (spelled : a.isSpelled = true) (identifier : isIdentifier name = true)
    (indexed : (Expr.index (.ident name s) index t).IndexedAt n)
    (same : a.text = (Expr.index (.ident name s) index t).text) :
    a.IndexedAt n ∧ ∃ object index' t', a = .index object index' t' ∧
      ((∃ s', object = .ident name s') ∨ name = "inf") := by
  cases indexed with
  | @mk _ _ _ x m number whole =>
    have plain : IsPlainText (Expr.index (.ident name s) index t).text := by
      have named : (Expr.ident name s).inPlace 8 name = name := rfl
      simp only [Expr.text, named, isPlainText_append]
      exact ⟨⟨⟨isPlainText_identifier identifier, by decide⟩,
        isPlainText_signed number whole.finite⟩, by decide⟩
    have looks := apparent_eq_of_text_eq spelled (a.isClear_of_text (by rwa [same]))
      (by rw [Expr.isSpelled, Expr.isSpelled, identifier, isSpelled_of_number? number]; rfl)
      (Expr.isClear_of_text _ plain) same
    obtain ⟨object, index', t', rfl, name', position⟩ := apparent_index looks
    exact ⟨.mk (number?_of_apparent position number whole.finite) whole, object, index', t', rfl,
      apparent_ident name'⟩

end Script

end SortTrace
