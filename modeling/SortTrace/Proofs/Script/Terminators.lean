import SortTrace.Proofs.Script.BareGrammar
import SortTrace.Proofs.Script.Spans

/-!
Tokens with one more semicolon. A reader that goes through the tokens is compared with one that goes through
the same tokens with a semicolon put in front of one of them: up to that place the second one is where
the first one is, and behind it as well, once it has passed the semicolon.
-/

namespace SortTrace.Script

/-- Nodes that may end in a semicolon. The one behind a `do` loop belongs to the loop. -/
def Node.takesSemicolon : Node → Bool
  | .stmt (.varDecl ..) | .stmt (.expr ..) | .stmt (.ret ..) | .stmt (.brk _) | .stmt (.cont _)
  | .loop (.doWhile ..) => true
  | _ => false

def Node.endsAt (m : Nat) (n : Node) : Bool := n.takesSemicolon && n.span.stop == m

namespace Outline

def ends (m : Nat) (os : List Outline) : Bool :=
  (walkAll never os).any fun o => o.node.endsAt m

variable {m : Nat}

@[simp] theorem ends_nil : ends m [] = false := rfl

@[simp] theorem ends_mk_cons (n : Node) (below rest : List Outline) :
    ends m (mk n below :: rest) = (n.endsAt m || ends m below || ends m rest) := by
  simp [ends, walkAll, walk, never, node, Bool.or_assoc]

theorem ends_cons (o : Outline) (rest : List Outline) :
    ends m (o :: rest) = (ends m [o] || ends m rest) := by
  obtain ⟨n, below⟩ := o
  simp

@[simp] theorem ends_cons_cons (o o' : Outline) (rest : List Outline) :
    ends m (o :: o' :: rest) = (ends m [o] || ends m (o' :: rest)) := ends_cons o _

@[simp] theorem ends_append (os others : List Outline) :
    ends m (os ++ others) = (ends m os || ends m others) := by
  induction os with
  | nil => rfl
  | cons o rest ih => rw [List.cons_append, ends_cons, ih, ends_cons o rest, Bool.or_assoc]

end Outline

open Outline (ends)

@[simp] theorem Node.endsAt_expr (m : Nat) (e : Expr) : (Node.expr e).endsAt m = false := rfl

@[simp] theorem Node.endsAt_func (m : Nat) (f : Func) : (Node.func f).endsAt m = false := rfl

@[simp] theorem Node.endsAt_varDecl (m : Nat) (d : VarDecl) : (Node.varDecl d).endsAt m = false := rfl

@[simp] theorem Node.endsAt_declarator (m : Nat) (d : Declarator) :
    (Node.declarator d).endsAt m = false := rfl

structure Numbered (ts : List Token) : Prop where
  ordered : Ordered ts
  stop {i : Nat} {t : Token} : ts[i]? = some t → t.span.stop = i + 1

theorem Numbered.stop_eq {ts : List Token} (numbered : Numbered ts) {i j : Nat} {s : Span}
    (reaches : s.Reaches ts i j) : s.stop = j := by
  obtain ⟨less, -, found⟩ := reaches
  have stop := numbered.stop found
  dsimp only
  omega

/-- The tokens with a semicolon in front of token `m`, without spans. -/
def withSemicolon (ts : List Token) (m : Nat) : List Token :=
  (ts.take m).map Token.bare ++ ⟨.mark .semicolon, {}⟩ :: (ts.drop m).map Token.bare

/-- The cursor among those tokens that stands in front of token `i`, with the semicolon passed or
still ahead. -/
def Cursor.twin (ts : List Token) (m : Nat) (passed : Bool) (i : Nat) : Cursor :=
  ⟨if passed then (ts.drop i).map Token.bare else (withSemicolon ts m).drop i, {}⟩

namespace Cursor

variable {ts : List Token} {m i : Nat} {p : Bool} {c : Cursor}

@[simp] theorem last_twin : (twin ts m p i).last = {} := rfl

theorem drop_withSemicolon (inside : m ≤ ts.length) (before : i ≤ m) :
    (withSemicolon ts m).drop i =
      ((ts.drop i).take (m - i)).map Token.bare ++
        ⟨.mark .semicolon, {}⟩ :: (ts.drop m).map Token.bare := by
  rw [withSemicolon, List.drop_append_of_le_length, ← List.map_drop, List.drop_take]
  rw [List.length_map, List.length_take]
  omega

@[simp] theorem span_twin : (twin ts m p i).span = {} := by
  have none : ∀ t ∈ (twin ts m p i).rest, t.span = {} := by
    unfold twin withSemicolon
    intro t member
    cases p with
    | true =>
      obtain ⟨u, -, rfl⟩ := List.mem_map.mp member
      rfl
    | false =>
      rcases List.mem_append.mp (List.mem_of_mem_drop member) with front | back
      · obtain ⟨u, -, rfl⟩ := List.mem_map.mp front
        rfl
      · rcases List.mem_cons.mp back with rfl | back
        · rfl
        · obtain ⟨u, -, rfl⟩ := List.mem_map.mp back
          rfl
  unfold span
  split
  · rename_i t rest shape
    exact none t (by simp [shape])
  · rfl

@[simp] theorem last_skip_twin (k : Mark) : ((twin ts m p i).skip k).last = {} := by
  have moved (c : Cursor) : c.advance.last = c.last ∨ c.advance.last = c.span := by
    obtain ⟨_ | ⟨t, rest⟩, last⟩ := c
    · exact .inl rfl
    · by_cases ended : t.kind = .eof
      · exact .inl (congrArg Cursor.last (if_pos ended))
      · exact .inr (congrArg Cursor.last (if_neg ended))
  unfold skip
  split
  · rcases moved (twin ts m p i) with stays | moves
    · rw [stays, last_twin]
    · rw [moves, span_twin]
  · rfl

theorem twin_ahead (inside : m ≤ ts.length) (before : i < m) {t : Token}
    (found : ts[i]? = some t) :
    twin ts m false i = ⟨t.bare :: (twin ts m false (i + 1)).rest, {}⟩ := by
  obtain ⟨less, rfl⟩ := List.getElem?_eq_some_iff.mp found
  unfold twin
  simp only [Bool.false_eq_true, if_false]
  rw [drop_withSemicolon inside (by omega), drop_withSemicolon inside (by omega),
    List.drop_eq_getElem_cons less, show m - i = m - (i + 1) + 1 by omega, List.take_succ_cons]
  rfl

theorem twin_semicolon (inside : m ≤ ts.length) :
    twin ts m false m = ⟨⟨.mark .semicolon, {}⟩ :: (ts.drop m).map Token.bare, {}⟩ := by
  unfold twin
  simp only [Bool.false_eq_true, if_false]
  rw [drop_withSemicolon inside (Nat.le_refl m), Nat.sub_self]
  rfl

theorem kind_semicolon (inside : m ≤ ts.length) : (twin ts m false m).kind = .mark .semicolon := by
  rw [twin_semicolon inside]
  rfl

theorem advance_cons {t : Token} {rest : List Token} {last : Span} (more : t.kind ≠ .eof) :
    (Cursor.mk (t :: rest) last).advance = ⟨rest, t.span⟩ := if_neg more

theorem advance_semicolon (inside : m ≤ ts.length) :
    (twin ts m false m).advance = twin ts m true m := by
  rw [twin_semicolon inside, advance_cons (by simp)]
  rfl

theorem twin_passed (behind : c.Behind ts i) : twin ts m true i = c.bare := by
  unfold twin bare
  rw [behind.rest]
  rfl

theorem kind_twin (inside : m ≤ ts.length) (behind : c.Behind ts i) (live : p = true ∨ i < m) :
    (twin ts m p i).kind = c.kind := by
  cases p with
  | true => rw [twin_passed behind, kind_bare]
  | false =>
    have before : i < m := live.resolve_left Bool.false_ne_true
    have found : ts[i]? = some ts[i] := List.getElem?_eq_getElem (by omega)
    rw [twin_ahead inside before found, kind, kind, behind.rest,
      List.drop_eq_getElem_cons (show i < ts.length by omega)]
    rfl

theorem advance_twin (inside : m ≤ ts.length) (behind : c.Behind ts i) (live : p = true ∨ i < m)
    (more : c.kind ≠ .eof) : (twin ts m p i).advance = twin ts m p (i + 1) := by
  cases p with
  | true => rw [twin_passed behind, twin_passed (behind.advance more), advance_bare]
  | false =>
    have before : i < m := live.resolve_left Bool.false_ne_true
    have found : ts[i]? = some ts[i] := List.getElem?_eq_getElem (by omega)
    have kind : ts[i].kind ≠ .eof := by
      rwa [Cursor.kind, behind.rest, List.drop_eq_getElem_cons (show i < ts.length by omega)] at more
    rw [twin_ahead inside before found]
    exact if_neg kind

/-- Where nothing more is read, the second reader may see the semicolon instead. -/
theorem kind_twin_or (inside : m ≤ ts.length) (behind : c.Behind ts i) (near : p = true ∨ i ≤ m) :
    (twin ts m p i).kind = c.kind ∨ (twin ts m p i).kind = .mark .semicolon := by
  by_cases live : p = true ∨ i < m
  · exact .inl (kind_twin inside behind live)
  · obtain ⟨other, late⟩ := not_or.mp live
    obtain rfl : i = m := by
      have close := near.resolve_left other
      omega
    rw [Bool.not_eq_true] at other
    subst other
    exact .inr (kind_semicolon inside)

theorem peek_twin {β : Type} (peek : TokenKind → β) (inside : m ≤ ts.length) (behind : c.Behind ts i)
    (near : p = true ∨ i ≤ m) (common : peek (.mark .semicolon) = peek c.kind) :
    peek (twin ts m p i).kind = peek c.kind := by
  rcases kind_twin_or inside behind near with same | other
  · rw [same]
  · rw [other, common]

theorem sees_twin (inside : m ≤ ts.length) (behind : c.Behind ts i) {k : Mark}
    (live : p = true ∨ i < m) : (twin ts m p i).sees k = true ↔ c.sees k = true := by
  rw [sees, sees, kind_twin inside behind live]

theorem sees_twin_near (inside : m ≤ ts.length) (behind : c.Behind ts i) {k : Mark}
    (other : k ≠ .semicolon) (near : p = true ∨ i ≤ m) (unseen : ¬c.sees k = true) :
    ¬(twin ts m p i).sees k = true := by
  have apart : c.kind ≠ .mark k := by simpa [sees] using unseen
  have common := peek_twin (fun t => decide (t = .mark k)) inside behind near
    (by simp [apart, other.symm])
  rw [sees, common]
  exact unseen

end Cursor

theorem arrowBehindParens_semicolon {depth : Nat} {front back : List Token} {t : Token}
    (semicolon : t.kind = .mark .semicolon)
    (none : arrowBehindParens depth (front ++ back) = false) :
    arrowBehindParens depth (front ++ t :: back) = false := by
  induction front generalizing depth with
  | nil => simpa [arrowBehindParens, semicolon] using none
  | cons u front ih =>
    rw [List.cons_append, arrowBehindParens] at none ⊢
    cases kind : u.kind with
    | mark k =>
      simp only [kind] at none
      cases k with
      | rparen =>
        dsimp only at none ⊢
        split
        · rename_i outermost
          rw [if_pos outermost] at none
          cases front with
          | nil => simp [Cursor.sees, Cursor.kind, semicolon]
          | cons v front => exact none
        · rename_i nested
          rw [if_neg nested] at none
          exact ih none
      | _ => exact ih none
    | eof => rfl
    | _ =>
      simp only [kind] at none
      exact ih none

namespace Grammar

variable {fuel : Nat} {c d : Cursor}

theorem rest_of_kind {k : TokenKind} (kind : c.kind = k) (more : k ≠ .eof) :
    ∃ t, t.kind = k ∧ c.rest = t :: c.advance.rest := by
  obtain ⟨_ | ⟨t, rest⟩, last⟩ := c
  · exact absurd kind.symm more
  · have kind : t.kind = k := kind
    refine ⟨t, kind, ?_⟩
    rw [Cursor.advance_cons (kind ▸ more)]

theorem expect_ok {k : TokenKind} (passed : c.expect k = .ok d) : c.kind = k ∧ d = c.advance := by
  unfold Cursor.expect at passed
  split at passed
  · rename_i kind
    cases passed
    exact ⟨kind, rfl⟩
  · cases passed

theorem name_ok {name : String} (passed : c.name = .ok (name, d)) :
    c.kind = .ident name ∧ d = c.advance := by
  unfold Cursor.name at passed
  split at passed
  · rename_i other kind
    cases passed
    exact ⟨kind, rfl⟩
  · cases passed

theorem arrowBehindParens_paramNames {names : List String} (read : paramNames fuel c = .ok (names, d)) :
    arrowBehindParens 1 c.rest = arrowBehindParens 1 d.rest := by
  induction fuel generalizing c names with
  | zero => cases read
  | succ fuel ih =>
    rw [paramNames] at read
    split at read
    · cases read
      rfl
    obtain ⟨⟨name, e⟩, named, read⟩ := ok_of_bind read
    obtain ⟨kind, rfl⟩ := name_ok named
    obtain ⟨t, ident, shape⟩ := rest_of_kind kind (by simp)
    rw [shape, arrowBehindParens, ident]
    dsimp only at read ⊢
    split at read
    · rename_i comma
      obtain ⟨⟨others, e⟩, more, read⟩ := ok_of_bind read
      cases read
      obtain ⟨u, mark, shape⟩ := rest_of_kind (of_decide_eq_true comma) (by simp)
      rw [← ih more, shape, arrowBehindParens, mark]
    · cases read
      rfl

theorem atArrow_of_arrow {e : Expr} (read : arrow fuel c = .ok (e, d)) : c.atArrow = true := by
  cases fuel with
  | zero => cases read
  | succ fuel =>
    rw [arrow] at read
    obtain ⟨⟨names, after⟩, params, read⟩ := ok_of_bind read
    obtain ⟨behind, passed, read⟩ := ok_of_bind read
    have arrow : after.sees .fatArrow = true := decide_eq_true (expect_ok passed).1
    cases fuel with
    | zero => cases params
    | succ fuel =>
      rw [arrowParams] at params
      split at params
      · rename_i paren
        obtain ⟨first, opened, params⟩ := ok_of_bind params
        obtain ⟨⟨names', second⟩, listed, params⟩ := ok_of_bind params
        obtain ⟨third, closed, params⟩ := ok_of_bind params
        cases params
        obtain ⟨kind, rfl⟩ := expect_ok opened
        obtain ⟨closing, rfl⟩ := expect_ok closed
        obtain ⟨t, lparen, shape⟩ := rest_of_kind kind (by simp)
        obtain ⟨u, rparen, shape'⟩ := rest_of_kind closing (by simp)
        rw [Cursor.atArrow, kind]
        dsimp only
        rw [shape, arrowBehindParens, lparen]
        dsimp only
        rw [arrowBehindParens_paramNames listed, shape', arrowBehindParens, rparen]
        exact arrow
      · obtain ⟨⟨name, first⟩, named, params⟩ := ok_of_bind params
        cases params
        obtain ⟨kind, rfl⟩ := name_ok named
        rw [Cursor.atArrow, kind]
        exact arrow

end Grammar

namespace Cursor

variable {ts : List Token} {m i : Nat} {p : Bool} {c : Cursor}

theorem atArrow_twin (inside : m ≤ ts.length) (behind : c.Behind ts i) (live : p = true ∨ i < m)
    (none : c.atArrow = false) : (twin ts m p i).atArrow = false := by
  cases p with
  | true => rw [twin_passed behind, atArrow_bare, none]
  | false =>
    have before : i < m := live.resolve_left Bool.false_ne_true
    unfold atArrow at none ⊢
    rw [kind_twin inside behind live]
    cases kind : c.kind with
    | ident name =>
      have more : c.kind ≠ .eof := by simp [kind]
      rw [kind] at none
      dsimp only at none ⊢
      rw [advance_twin inside behind live more]
      unfold sees at none ⊢
      rcases kind_twin_or (p := false) inside (behind.advance more) (.inr (by omega)) with same | other
      · rw [same, none]
      · rw [other]
        rfl
    | mark k =>
      rw [kind] at none
      cases k with
      | lparen =>
        dsimp only at none ⊢
        unfold twin
        simp only [Bool.false_eq_true, if_false]
        rw [drop_withSemicolon inside (by omega)]
        refine arrowBehindParens_semicolon rfl ?_
        rw [← List.map_append]
        have whole : (ts.drop i).take (m - i) ++ ts.drop m = ts.drop i := by
          conv => rhs; rw [← List.take_append_drop (m - i) (ts.drop i)]
          rw [List.drop_drop, show i + (m - i) = m by omega]
        rw [whole, arrowBehindParens_bare, ← behind.rest, none]
      | _ => rfl
    | _ => rfl

end Cursor

end SortTrace.Script
