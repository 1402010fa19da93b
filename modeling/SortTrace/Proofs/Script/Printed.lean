import SortTrace.Proofs.Numeral.ReadBack
import SortTrace.Proofs.Script.Legible
import SortTrace.Proofs.Script.Lines

/-!
The printed text of a legible expression spells the tokens of the expression: nowhere do two tokens
run into each other.
-/

namespace SortTrace.Script

open Numeral Text

theorem Opens.inPlace {P : Char → Prop} {e : Expr} {least : Nat} (paren : P '(')
    (opens : least ≤ e.level → Opens P e.text) : Opens P (e.inPlace least e.text) := by
  unfold Expr.inPlace
  split
  · exact .append (.append ⟨'(', [], rfl, paren⟩ e.text) ")"
  · exact opens (by omega)

theorem level_binary_le (l : Expr) (op : BinOp) (r : Expr) (s : Span) :
    (Expr.binary l op r s).level ≤ 6 := (Grammar.precedence_bounds op).2

theorem opens_operand (e : Expr) (spelled : e.isSpelled = true) (legible : e.isLegible = true)
    (high : 8 ≤ e.level) : Opens NoSign e.text := by
  have paren : NoSign '(' := noSign_of_ne (by decide) (by decide) (by decide)
  match e with
  | .number v _ =>
    have finite : v.isInfinite = false := by simpa [Expr.isLegible] using legible
    exact .positional (Magnitude.text_finite finite).1
  | .str v _ =>
    exact ⟨'\x22', _, String.toList_ofList, noSign_of_ne (by decide) (by decide) (by decide)⟩
  | .template v _ =>
    refine .append (.append ⟨'\x60', [], rfl, ?_⟩ v) _
    exact noSign_of_ne (by decide) (by decide) (by decide)
  | .bool true _ =>
    rw [Expr.text]
    exact ⟨'t', _, rfl, noSign_of_isNamePart rfl⟩
  | .bool false _ =>
    rw [Expr.text]
    exact ⟨'f', _, rfl, noSign_of_isNamePart rfl⟩
  | .null _ =>
    rw [Expr.text]
    exact ⟨'n', _, rfl, noSign_of_isNamePart rfl⟩
  | .ident name _ =>
    obtain ⟨first, tail, text, start, -⟩ := Identifier.chars ⟨name, spelled⟩
    exact ⟨first, tail, text, noSign_of_isNamePart (isNamePart_of_isNameStart start)⟩
  | .array items _ =>
    refine .append (.append ⟨'[', [], rfl, ?_⟩ _) _
    exact noSign_of_ne (by decide) (by decide) (by decide)
  | .update op false e _ =>
    exact .append (.inPlace paren (opens_operand e spelled legible)) _
  | .member e p _ =>
    simp only [Expr.isSpelled, Bool.and_eq_true] at spelled
    exact .append (.append (.inPlace paren (opens_operand e spelled.1 legible)) _) _
  | .index e i _ =>
    simp only [Expr.isSpelled, Expr.isLegible, Bool.and_eq_true] at spelled legible
    exact .append (.append (.append (.inPlace paren (opens_operand e spelled.1 legible.1)) _) _) _
  | .call e args _ =>
    simp only [Expr.isSpelled, Expr.isLegible, Bool.and_eq_true] at spelled legible
    exact .append (.append (.append (.inPlace paren (opens_operand e spelled.1 legible.1)) _) _) _
  | .binary l op r s =>
    have low := level_binary_le l op r s
    omega
  | .update op true e _ | .unary op e _ => simp [Expr.level] at high
  | .assign .. | .conditional .. | .func .. => simp [Expr.level] at high

theorem opens_signed (op : UnaryOp) (e : Expr) (apart : op.runsInto e = false)
    (spelled : e.isSpelled = true) (legible : e.isLegible = true) :
    Opens (fun c => ¬ op.takes c) (e.inPlace 7 e.text) := by
  refine .inPlace (by cases op <;> decide) fun high => ?_
  by_cases operand : 8 ≤ e.level
  · exact (opens_operand e spelled legible operand).mono fun c noSign => noSign op
  · cases e with
    | unary inner e s =>
      refine .append ?_ _
      cases inner with
      | neg =>
        refine ⟨'-', _, rfl, fun takes => ?_⟩
        obtain rfl := UnaryOp.neg_of_takes takes
        cases apart
      | plus =>
        refine ⟨'+', _, rfl, fun takes => ?_⟩
        obtain rfl := UnaryOp.plus_of_takes takes
        cases apart
      | not => exact ⟨'!', _, rfl, by cases op <;> decide⟩
      | typeof => exact ⟨'t', _, rfl, by cases op <;> decide⟩
    | update inner before e s =>
      cases before with
      | true =>
        rw [Expr.text, if_pos rfl]
        refine .append ?_ _
        cases inner with
        | increment =>
          refine ⟨'+', _, rfl, fun takes => ?_⟩
          obtain rfl := UnaryOp.plus_of_takes takes
          cases apart
        | decrement =>
          refine ⟨'-', _, rfl, fun takes => ?_⟩
          obtain rfl := UnaryOp.neg_of_takes takes
          cases apart
      | false => exact absurd (Nat.le_refl 8) operand
    | binary l inner r s =>
      have low := level_binary_le l inner r s
      omega
    | assign | conditional | func => simp [Expr.level] at high
    | _ => exact absurd (Nat.le_refl 8) operand

namespace SpellsPhrase

variable {text : String} {ks : List TokenKind}

theorem parens (spells : SpellsPhrase text ks) :
    SpellsPhrase ("(" ++ text ++ ")") (.mark .lparen :: (ks ++ [TokenKind.mark .rparen])) := by
  intro rest ls ends behind
  simp only [String.toList_append, String.reduceToList, List.append_assoc, List.cons_append,
    List.nil_append]
  exact .single rfl (spells _ _ (.cons rfl (by decide) _) (.single rfl behind))

theorem inPlace (e : Expr) (least : Nat) (spells : SpellsPhrase text ks) :
    SpellsPhrase (e.inPlace least text) (e.placed least ks) := by
  unfold Expr.inPlace Expr.placed
  split
  · exact spells.parens
  · exact spells

theorem step (op : UpdateOp) {rest : List Char} (behind : Spells rest ks) :
    Spells (op.text.toList ++ rest) (.mark op.mark :: ks) := by
  cases op with
  | increment => exact @Spells.token _ _ '+' ['+'] _ rfl behind
  | decrement => exact @Spells.token _ _ '-' ['-'] _ rfl behind

theorem stepBefore (op : UpdateOp) (spells : SpellsPhrase text ks) :
    SpellsPhrase (op.text ++ text) (.mark op.mark :: ks) := by
  intro rest ls ends behind
  rw [String.toList_append, List.append_assoc]
  exact step op (spells rest ls ends behind)

theorem stepAfter (op : UpdateOp) (spells : SpellsPhrase text ks) :
    SpellsPhrase (text ++ op.text) (ks ++ [TokenKind.mark op.mark]) := by
  intro rest ls ends behind
  rw [String.toList_append, List.append_assoc, List.append_assoc]
  refine spells _ _ ?_ (step op behind)
  cases op <;> exact .cons rfl (by decide) _

theorem assign (op : AssignOp) {value : String} {vs : List TokenKind}
    (spellsTarget : SpellsPhrase text ks) (spellsValue : SpellsPhrase value vs) :
    SpellsPhrase (text ++ " " ++ op.text ++ " " ++ value) (ks ++ .mark op.mark :: vs) := by
  refine joined (fun cs ls behind => ?_) spellsTarget spellsValue
  have blank : Spells (' ' :: cs) ls := .blank rfl behind
  cases op
  all_goals first
    | exact @Spells.token _ _ _ [] _ rfl blank
    | exact @Spells.token _ _ _ [_] _ rfl blank

theorem conditional {yes no : String} {ys ns : List TokenKind}
    (spellsTest : SpellsPhrase text ks) (spellsYes : SpellsPhrase yes ys)
    (spellsNo : SpellsPhrase no ns) :
    SpellsPhrase (text ++ " ? " ++ yes ++ " : " ++ no)
      (ks ++ .mark .question :: (ys ++ .mark .colon :: ns)) := by
  intro rest ls ends behind
  simp only [String.toList_append, String.reduceToList, List.append_assoc, List.cons_append,
    List.nil_append]
  refine spellsTest _ _ (.cons rfl (by decide) _) (.blank rfl (.single rfl (.blank rfl ?_)))
  refine spellsYes _ _ (.cons rfl (by decide) _) (.blank rfl (.single rfl (.blank rfl ?_)))
  exact spellsNo _ _ ends behind

theorem call {args : String} {as : List TokenKind} (spells : SpellsPhrase text ks)
    (spellsArgs : SpellsPhrase args as) :
    SpellsPhrase (text ++ "(" ++ args ++ ")")
      (ks ++ .mark .lparen :: (as ++ [TokenKind.mark .rparen])) := by
  intro rest ls ends behind
  simp only [String.toList_append, String.reduceToList, List.append_assoc, List.cons_append,
    List.nil_append]
  refine spells _ _ (.cons rfl (by decide) _) (.single rfl ?_)
  exact spellsArgs _ _ (.cons rfl (by decide) _) (.single rfl behind)

end SpellsPhrase

theorem listText_eq (es : List Expr) : Expr.listText es = ", ".intercalate (es.map Expr.text) := by
  induction es with
  | nil => rfl
  | cons e es ih =>
    rcases es with _ | ⟨e', es⟩
    · simp [Expr.listText, Expr.tailText]
    · have tail : Expr.tailText (e' :: es) = ", " ++ Expr.listText (e' :: es) := by
        rw [Expr.tailText, Expr.listText, String.append_assoc]
      rw [Expr.listText, tail, ih]
      simp only [List.map_cons, String.intercalate_cons_cons, String.append_assoc]

theorem SpellsPhrase.listText {es : List Expr}
    (spells : ∀ e ∈ es, SpellsPhrase e.text e.tokens) :
    SpellsPhrase (Expr.listText es) (Expr.listTokens es) := by
  have parts := SpellsPhrase.items (es.map fun e => (e.text, e)) (by simpa using spells)
  simp only [List.map_map, Function.comp_def, List.map_id'] at parts
  rw [listText_eq]
  exact parts

mutual

theorem spells_text (e : Expr) (spelled : e.isSpelled = true) (legible : e.isLegible = true) :
    SpellsPhrase e.text e.tokens := by
  match e with
  | .number v _ =>
    have finite : v.isInfinite = false := by simpa [Expr.isLegible] using legible
    obtain ⟨shape, value⟩ := Magnitude.text_finite finite
    exact fun _ _ ends behind => .number shape value ends behind
  | .str v _ =>
    exact fun _ _ _ behind => .str (by simpa [Expr.isLegible] using legible) behind
  | .template v _ =>
    simp only [Expr.isLegible, Bool.and_eq_true] at legible
    have accent : '\x60' ∉ v.toList := by simpa using legible.1
    have slash : '\\' ∉ v.toList := by simpa using legible.2
    intro rest ls ends behind
    simpa [Expr.text, Expr.tokens] using Spells.template accent slash behind
  | .bool true _ => exact fun _ _ ends behind => .keyword .trueWord ends.1 behind
  | .bool false _ => exact fun _ _ ends behind => .keyword .falseWord ends.1 behind
  | .null _ => exact fun _ _ ends behind => .keyword .nullWord ends.1 behind
  | .ident name _ => exact .name ⟨name, spelled⟩
  | .array items _ => exact .brackets (.listText (spells_texts items spelled legible))
  | .unary op e _ =>
    simp only [Expr.isLegible, Bool.and_eq_true, Bool.not_eq_true'] at legible
    have opens := opens_signed op e legible.1 spelled legible.2
    exact .sign op opens (.inPlace e 7 (spells_text e spelled legible.2))
  | .update op true e _ => exact .stepBefore op (.inPlace e 8 (spells_text e spelled legible))
  | .update op false e _ => exact .stepAfter op (.inPlace e 8 (spells_text e spelled legible))
  | .binary l op r _ =>
    simp only [Expr.isSpelled, Expr.isLegible, Bool.and_eq_true] at spelled legible
    exact .binary op (.inPlace l _ (spells_text l spelled.1 legible.1))
      (.inPlace r _ (spells_text r spelled.2 legible.2))
  | .assign op t v _ =>
    simp only [Expr.isSpelled, Expr.isLegible, Bool.and_eq_true] at spelled legible
    exact .assign op (spells_text t spelled.1.2 legible.1) (spells_text v spelled.2 legible.2)
  | .conditional t c a _ =>
    simp only [Expr.isSpelled, Expr.isLegible, Bool.and_eq_true] at spelled legible
    exact .conditional (.inPlace t 1 (spells_text t spelled.1.1 legible.1.1))
      (spells_text c spelled.1.2 legible.1.2) (spells_text a spelled.2 legible.2)
  | .call f args _ =>
    simp only [Expr.isSpelled, Expr.isLegible, Bool.and_eq_true] at spelled legible
    exact .call (.inPlace f 8 (spells_text f spelled.1 legible.1))
      (.listText (spells_texts args spelled.2 legible.2))
  | .member o p _ =>
    simp only [Expr.isSpelled, Bool.and_eq_true] at spelled
    exact .property (.inPlace o 8 (spells_text o spelled.1 legible)) spelled.2
  | .index o i _ =>
    simp only [Expr.isSpelled, Expr.isLegible, Bool.and_eq_true] at spelled legible
    exact .index (.inPlace o 8 (spells_text o spelled.1 legible.1))
      (spells_text i spelled.2 legible.2)
  | .func .. => simp [Expr.isLegible] at legible

theorem spells_texts (es : List Expr) (spelled : Expr.areSpelled es = true)
    (legible : Expr.areLegible es = true) : ∀ e ∈ es, SpellsPhrase e.text e.tokens := by
  match es with
  | [] => simp
  | e :: es =>
    simp only [Expr.areSpelled, Expr.areLegible, Bool.and_eq_true] at spelled legible
    have first := spells_text e spelled.1 legible.1
    have others := spells_texts es spelled.2 legible.2
    exact List.forall_mem_cons.mpr ⟨first, others⟩

end

def Expr.Printable (e : Expr) : Prop := e.isSpelled = true ∧ e.isLegible = true

theorem Expr.Printable.spells {e : Expr} (printable : e.Printable) : SpellsPhrase e.text e.tokens :=
  spells_text e printable.1 printable.2

theorem Expr.Printable.pair {x y : Expr} (first : x.Printable) (second : y.Printable) :
    (Expr.array [x, y] {}).Printable := by
  simp [Expr.Printable, Expr.isSpelled, Expr.areSpelled, Expr.isLegible, Expr.areLegible, first.1,
    first.2, second.1, second.2]

theorem Expr.Printable.binary {l r : Expr} (op : BinOp) (left : l.Printable) (right : r.Printable) :
    (Expr.binary l op r {}).Printable := by
  simp [Expr.Printable, Expr.isSpelled, Expr.isLegible, left.1, left.2, right.1, right.2]

end SortTrace.Script
