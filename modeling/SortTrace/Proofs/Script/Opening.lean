import SortTrace.Proofs.Script.Tokens

/-!
How a text begins: a sign stays a token of its own if what comes behind it does not go on with it.
-/

namespace SortTrace.Script

/-- In front of this character, the sign would be scanned as a longer mark. -/
def UnaryOp.takes (op : UnaryOp) (c : Char) : Prop :=
  c = '=' ∨ op = .neg ∧ c = '-' ∨ op = .plus ∧ c = '+'

instance (op : UnaryOp) (c : Char) : Decidable (op.takes c) :=
  inferInstanceAs (Decidable (_ ∨ _))

theorem UnaryOp.neg_of_takes {op : UnaryOp} (takes : op.takes '-') : op = .neg := by
  rcases takes with same | ⟨neg, -⟩ | ⟨-, same⟩
  · cases same
  · exact neg
  · cases same

theorem UnaryOp.plus_of_takes {op : UnaryOp} (takes : op.takes '+') : op = .plus := by
  rcases takes with same | ⟨-, same⟩ | ⟨plus, -⟩
  · cases same
  · cases same
  · exact plus

theorem Spells.sign {op : UnaryOp} {c : Char} {rest : List Char} {ks : List TokenKind}
    (apart : ¬ op.takes c) (behind : Spells (c :: rest) ks) :
    Spells (op.text.toList ++ c :: rest) (op.token :: ks) := by
  have equal : c ≠ '=' := fun same => apart (.inl same)
  cases op with
  | neg =>
    have minus : c ≠ '-' := fun same => apart (.inr (.inl ⟨rfl, same⟩))
    have mark : markAt? '-' (c :: rest) = some (.minus, 0) := by simp [markAt?, equal, minus]
    have front : lexemeAt '-' (c :: rest) = .token (.mark .minus) 0 := by
      rw [lexemeAt, mark]
      rfl
    exact .single front behind
  | plus =>
    have plus : c ≠ '+' := fun same => apart (.inr (.inr ⟨rfl, same⟩))
    have mark : markAt? '+' (c :: rest) = some (.plus, 0) := by simp [markAt?, equal, plus]
    have front : lexemeAt '+' (c :: rest) = .token (.mark .plus) 0 := by
      rw [lexemeAt, mark]
      rfl
    exact .single front behind
  | not =>
    have mark : markAt? '!' (c :: rest) = some (.bang, 0) := by simp [markAt?, equal]
    have front : lexemeAt '!' (c :: rest) = .token (.mark .bang) 0 := by
      rw [lexemeAt, mark]
      rfl
    exact .single front behind
  | typeof => exact .keyword .typeofWord (.cons rfl _) (.blank rfl behind)

def NoSign (c : Char) : Prop := ∀ op : UnaryOp, ¬ op.takes c

theorem noSign_of_ne {c : Char} (equal : c ≠ '=') (minus : c ≠ '-') (plus : c ≠ '+') :
    NoSign c := by
  rintro op (same | ⟨-, same⟩ | ⟨-, same⟩)
  · exact equal same
  · exact minus same
  · exact plus same

theorem noSign_of_isNamePart {c : Char} (part : isNamePart c = true) : NoSign c :=
  noSign_of_ne (ne_of_isNamePart part rfl) (ne_of_isNamePart part rfl) (ne_of_isNamePart part rfl)

def Opens (P : Char → Prop) (text : String) : Prop := ∃ c rest, text.toList = c :: rest ∧ P c

namespace Opens

variable {P Q : Char → Prop} {text : String}

theorem append (opens : Opens P text) (more : String) : Opens P (text ++ more) := by
  obtain ⟨c, rest, whole, holds⟩ := opens
  exact ⟨c, rest ++ more.toList, by rw [String.toList_append, whole, List.cons_append], holds⟩

theorem mono (opens : Opens P text) (weaker : ∀ c, P c → Q c) : Opens Q text := by
  obtain ⟨c, rest, whole, holds⟩ := opens
  exact ⟨c, rest, whole, weaker c holds⟩

theorem positional (shape : Numeral.IsPositional text.toList) : Opens NoSign text := by
  obtain ⟨first, tail, whole⟩ := List.exists_cons_of_ne_nil shape.ne_nil
  rw [whole] at shape
  obtain ⟨digit, -⟩ := numberLength_positional shape .nil
  exact ⟨first, tail, whole, noSign_of_isNamePart (isNamePart_of_isDigit digit)⟩

end Opens

end SortTrace.Script
