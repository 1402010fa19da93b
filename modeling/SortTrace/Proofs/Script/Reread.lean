import SortTrace.Proofs.Script.Printed

/-!
Reading what was printed: the printed text of a legible expression is read as that expression, up to
spans, and nothing is left of the text.
-/

namespace SortTrace.Script

open Cursor (ofKinds)

mutual

theorem isPlain_of_isLegible (e : Expr) (spelled : e.isSpelled = true)
    (legible : e.isLegible = true) : e.isPlain = true := by
  match e with
  | .number .. | .str .. | .template .. | .bool .. | .null _ | .ident .. => rfl
  | .array items _ => exact arePlain_of_areLegible items spelled legible
  | .unary op e _ =>
    simp only [Expr.isLegible, Bool.and_eq_true] at legible
    exact isPlain_of_isLegible e spelled legible.2
  | .update _ _ e _ => exact isPlain_of_isLegible e spelled legible
  | .member o p _ =>
    simp only [Expr.isSpelled, Bool.and_eq_true] at spelled
    exact isPlain_of_isLegible o spelled.1 legible
  | .binary l _ r _ | .index l r _ =>
    simp only [Expr.isSpelled, Expr.isLegible, Bool.and_eq_true] at spelled legible
    have left := isPlain_of_isLegible l spelled.1 legible.1
    have right := isPlain_of_isLegible r spelled.2 legible.2
    rw [Expr.isPlain, left, right, Bool.and_true]
  | .assign _ t v _ =>
    simp only [Expr.isSpelled, Expr.isLegible, Bool.and_eq_true] at spelled legible
    have target := isPlain_of_isLegible t spelled.1.2 legible.1
    have value := isPlain_of_isLegible v spelled.2 legible.2
    rw [Expr.isPlain, spelled.1.1, target, value, Bool.and_true, Bool.and_true]
  | .conditional t c a _ =>
    simp only [Expr.isSpelled, Expr.isLegible, Bool.and_eq_true] at spelled legible
    have test := isPlain_of_isLegible t spelled.1.1 legible.1.1
    have consequent := isPlain_of_isLegible c spelled.1.2 legible.1.2
    have alternate := isPlain_of_isLegible a spelled.2 legible.2
    rw [Expr.isPlain, test, consequent, alternate, Bool.and_true, Bool.and_true]
  | .call f args _ =>
    simp only [Expr.isSpelled, Expr.isLegible, Bool.and_eq_true] at spelled legible
    have callee := isPlain_of_isLegible f spelled.1 legible.1
    have others := arePlain_of_areLegible args spelled.2 legible.2
    rw [Expr.isPlain, callee, others, Bool.and_true]
  | .func .. => simp [Expr.isLegible] at legible

theorem arePlain_of_areLegible (es : List Expr) (spelled : Expr.areSpelled es = true)
    (legible : Expr.areLegible es = true) : Expr.arePlain es = true := by
  match es with
  | [] => rfl
  | e :: es =>
    simp only [Expr.areSpelled, Expr.areLegible, Bool.and_eq_true] at spelled legible
    have first := isPlain_of_isLegible e spelled.1 legible.1
    have others := arePlain_of_areLegible es spelled.2 legible.2
    rw [Expr.arePlain, first, others, Bool.and_true]

end

theorem reads_kinds {tokens : List Token} {e : Expr}
    (kinds : tokens.map Token.kind = e.tokens ++ [TokenKind.eof]) (plain : e.isPlain = true) :
    ∃ copy left, Grammar.assignment (Grammar.allowance tokens) ⟨tokens, {}⟩ = .ok (copy, left) ∧
      left.rest.map Token.kind = [.eof] ∧ copy.bare = e.bare := by
  have bare : (Cursor.mk tokens {}).bare = ofKinds (e.tokens ++ [TokenKind.eof]) := by
    rw [ofKinds, ← kinds, Cursor.bare, List.map_map]
    rfl
  have length : tokens.length = e.tokens.length + 1 := by
    rw [← List.length_map, kinds, List.length_append, List.length_singleton]
  have noArrow : Grammar.NoArrow (e.tokens ++ [TokenKind.eof]) := by
    simp [Grammar.noArrow_tokens e]
  have read := (Grammar.reads_tokens e plain).assignment (Grammar.allowance tokens) [.eof]
    (by rw [Grammar.allowance]; omega) noArrow rfl
  -- The parser does not look at spans, so what it makes of the bare tokens it makes of these.
  rw [← bare, (Grammar.spanFree (Grammar.allowance tokens)).assignment] at read
  rcases outcome : Grammar.assignment (Grammar.allowance tokens) ⟨tokens, {}⟩ with _ | ⟨copy, left⟩
  · rw [outcome] at read
    cases read
  · rw [outcome] at read
    obtain ⟨same, ends⟩ := Prod.mk.inj (Except.ok.inj read)
    have rest := congrArg (fun c => c.rest.map Token.kind) ends
    simp only [Cursor.bare, List.map_map] at rest
    exact ⟨copy, left, rfl, rest, same⟩

/-- The printed text of an expression that was read is read as the same expression, to its end. -/
theorem reads_text {text : String} {tokens : List Token} (scanned : scan text = .ok tokens)
    {start rest : Cursor} (inside : start.Inside tokens) {fuel : Nat} {e : Expr}
    (read : Grammar.assignment fuel start = .ok (e, rest)) (legible : e.isLegible = true) :
    ∃ again copy left, scan e.text = .ok again ∧
      Grammar.assignment (Grammar.allowance again) ⟨again, {}⟩ = .ok (copy, left) ∧
      left.rest.map Token.kind = [.eof] ∧ copy.bare = e.bare := by
  have spelled := isSpelled_of_read scanned inside read
  obtain ⟨again, rescanned, kinds⟩ := spells_text e spelled legible [] [.eof] .nil .nil .origin
  rw [List.append_nil] at rescanned
  obtain ⟨copy, left, reread, ends, same⟩ :=
    reads_kinds kinds (isPlain_of_isLegible e spelled legible)
  exact ⟨again, copy, left, rescanned, reread, ends, same⟩

/-- Parentheses that are not needed are not printed. -/
theorem reads_text_difference :
    ∃ tokens e rest again copy left,
      scan "(a) - (-b - 1.5)" = .ok tokens ∧
      Grammar.assignment (Grammar.allowance tokens) ⟨tokens, {}⟩ = .ok (e, rest) ∧
      e.isLegible = true ∧ e.text = "a - (-b - 1.5)" ∧
      scan e.text = .ok again ∧
      Grammar.assignment (Grammar.allowance again) ⟨again, {}⟩ = .ok (copy, left) ∧
      left.rest.map Token.kind = [.eof] ∧ copy.bare = e.bare := by
  let tokens : List Token :=
    [⟨.mark .lparen, ⟨0, 1, 1, 1⟩⟩, ⟨.ident "a", ⟨1, 2, 1, 2⟩⟩, ⟨.mark .rparen, ⟨2, 3, 1, 3⟩⟩,
      ⟨.mark .minus, ⟨4, 5, 1, 5⟩⟩, ⟨.mark .lparen, ⟨6, 7, 1, 7⟩⟩, ⟨.mark .minus, ⟨7, 8, 1, 8⟩⟩,
      ⟨.ident "b", ⟨8, 9, 1, 9⟩⟩, ⟨.mark .minus, ⟨10, 11, 1, 11⟩⟩,
      ⟨.number (.ofCode 4609434218613702656), ⟨12, 15, 1, 13⟩⟩, ⟨.mark .rparen, ⟨15, 16, 1, 16⟩⟩,
      ⟨.eof, ⟨16, 16, 1, 17⟩⟩]
  have scanned : scan "(a) - (-b - 1.5)" = .ok tokens := by decide +kernel
  obtain ⟨e, rest, read, legible, printed⟩ : ∃ e rest,
      Grammar.assignment (Grammar.allowance tokens) ⟨tokens, {}⟩ = .ok (e, rest) ∧
      e.isLegible = true ∧ e.text = "a - (-b - 1.5)" := ⟨_, _, rfl, rfl, by decide +kernel⟩
  have inside : (Cursor.mk tokens {}).Inside tokens := List.suffix_refl tokens
  obtain ⟨again, copy, left, rescanned, reread, ends, same⟩ :=
    reads_text scanned inside read legible
  exact ⟨tokens, e, rest, again, copy, left, scanned, read, legible, printed, rescanned, reread,
    ends, same⟩

end SortTrace.Script
