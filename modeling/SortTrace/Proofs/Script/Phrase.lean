import SortTrace.Proofs.Script.BareGrammar
import SortTrace.Proofs.Script.Tokens

/-!
Phrases: the grammar reads the tokens of a printed expression back. The printer decides about
parentheses by levels and the grammar climbs by precedence; both come to the same tree.
-/

namespace SortTrace.Script

namespace Cursor

def ofKinds (ks : List TokenKind) : Cursor := ⟨ks.map (⟨·, {}⟩), {}⟩

variable {k : TokenKind} {ks : List TokenKind}

@[simp] theorem kind_ofKinds : (ofKinds (k :: ks)).kind = k := rfl

@[simp] theorem span_ofKinds : (ofKinds ks).span = {} := by
  cases ks <;> rfl

@[simp] theorem last_ofKinds : (ofKinds ks).last = {} := rfl

@[simp] theorem advance_ofKinds (more : k ≠ .eof) :
    (ofKinds (k :: ks)).advance = ofKinds ks := by
  simp [ofKinds, advance, more]

theorem expect_ofKinds (more : k ≠ .eof) : (ofKinds (k :: ks)).expect k = .ok (ofKinds ks) := by
  simp [expect, more]

end Cursor

open Cursor (ofKinds)

/-- How tightly a token holds on to the expression in front of it: not at all, as an assignment, as
a conditional, as one of the six levels of operators, or as something behind an operand. -/
def Mark.grip : Mark → Nat
  | .lparen | .dot | .lbracket | .plusPlus | .minusMinus => 9
  | .star | .slash | .percent => 8
  | .plus | .minus => 7
  | .lt | .gt | .ltEq | .gtEq => 6
  | .eqEq | .eqEqEq | .notEq | .notEqEq => 5
  | .ampAmp => 4
  | .pipePipe => 3
  | .question => 2
  | .eq | .plusEq | .minusEq | .starEq | .slashEq | .percentEq => 1
  | _ => 0

def TokenKind.grip : TokenKind → Nat
  | .mark m => m.grip
  | _ => 0

def Cursor.grip (c : Cursor) : Nat := c.kind.grip

namespace Cursor

variable {c : Cursor}

theorem grip_binOp {op : BinOp} (next : c.binOp? = some op) : c.grip = op.precedence + 2 := by
  unfold binOp? at next
  split at next
  · rename_i m kind
    rw [grip, kind]
    cases m <;> simp [Mark.binOp?] at next <;> subst next <;> rfl
  · cases next

theorem grip_assignOp {op : AssignOp} (next : c.assignOp? = some op) : c.grip = 1 := by
  unfold assignOp? at next
  split at next
  · rename_i m kind
    rw [grip, kind]
    cases m <;> simp [Mark.assignOp?] at next <;> rfl
  · cases next

theorem grip_question (next : c.sees .question = true) : c.grip = 2 := by
  have kind : c.kind = .mark .question := by simpa [sees] using next
  rw [grip, kind]
  rfl

theorem assignOp?_loose (loose : c.grip = 0) : c.assignOp? = none := by
  cases next : c.assignOp? with
  | none => rfl
  | some op =>
    have grip := grip_assignOp next
    omega

theorem question_loose (loose : c.grip = 0) : c.sees .question = false := by
  cases seen : c.sees .question with
  | false => rfl
  | true =>
    have grip := grip_question seen
    omega

end Cursor

/-- A mark that an expression may end in front of, but never starts with. -/
def Mark.Closes (m : Mark) : Prop := m = .rparen ∨ m = .rbracket ∨ m = .semicolon

namespace Grammar

theorem postfixTail_ends {c : Cursor} (fuel : Nat) (e : Expr) (loose : c.grip < 9) :
    postfixTail (fuel + 1) e c = .ok (e, c) := by
  simp only [postfixTail]
  split
  all_goals first
    | rfl
    | rename_i kind
      simp [Cursor.grip, kind, TokenKind.grip, Mark.grip] at loose

theorem binaryTail_ends {c : Cursor} {least : Nat} (fuel : Nat) (e : Expr)
    (loose : c.grip < least + 2) : binaryTail (fuel + 1) least e c = .ok (e, c) := by
  simp only [binaryTail]
  split
  · rfl
  · rename_i op next
    have grip := Cursor.grip_binOp next
    rw [if_pos (by omega)]

theorem sees_fatArrow {ks : List TokenKind} (noArrow : NoArrow ks) (last : Span) :
    (Cursor.mk (ks.map (⟨·, {}⟩)) last).sees .fatArrow = false := by
  rcases ks with _ | ⟨k, ks⟩
  · rfl
  · have other : k ≠ .mark .fatArrow := fun same => noArrow (by simp [same])
    simp [Cursor.sees, Cursor.kind, other]

theorem arrowBehindParens_noArrow {ks : List TokenKind} (noArrow : NoArrow ks) (depth : Nat) :
    arrowBehindParens depth (ks.map (⟨·, {}⟩)) = false := by
  induction ks generalizing depth with
  | nil => rfl
  | cons k ks ih =>
    have rest := ih noArrow.tail
    simp only [List.map_cons, arrowBehindParens]
    split
    · exact rest _
    · split
      · exact sees_fatArrow noArrow.tail _
      · exact rest _
    · rfl
    · exact rest _

theorem atArrow_noArrow {ks : List TokenKind} (noArrow : NoArrow ks) :
    (ofKinds ks).atArrow = false := by
  unfold Cursor.atArrow
  split
  · rename_i name kind
    rcases ks with _ | ⟨k, ks⟩
    · rfl
    · have name : k = .ident name := kind
      rw [name, Cursor.advance_ofKinds (by simp)]
      exact sees_fatArrow noArrow.tail {}
  · exact arrowBehindParens_noArrow noArrow 0
  · rfl

/-- The rule for operands gets through the tokens and has read the expression; what may follow an
operand is still to be read. -/
def ReadsOperand (ks : List TokenKind) (e : Expr) : Prop :=
  ∀ fuel rest, 8 * ks.length ≤ fuel + 3 → NoArrow (ks ++ rest) →
    ∃ left, fuel + 4 ≤ left + 8 * ks.length ∧
      unary fuel (ofKinds (ks ++ rest)) = postfixTail left e.bare (ofKinds rest)

def ReadsUnary (ks : List TokenKind) (e : Expr) : Prop :=
  ∀ fuel rest, 8 * ks.length ≤ fuel + 3 → NoArrow (ks ++ rest) → (ofKinds rest).grip < 9 →
    unary fuel (ofKinds (ks ++ rest)) = .ok (e.bare, ofKinds rest)

/-- The rule for operators gets through the tokens and has read the expression, if nothing takes
its last operand away; operators that may follow are still to be read. -/
def ReadsBinary (level : Nat) (ks : List TokenKind) (e : Expr) : Prop :=
  ∀ least fuel rest, least ≤ level → 8 * ks.length ≤ fuel + 2 → NoArrow (ks ++ rest) →
    (ofKinds rest).grip ≤ min level 6 + 2 →
    ∃ left, fuel + 4 ≤ left + 8 * ks.length ∧
      binary fuel least (ofKinds (ks ++ rest)) = binaryTail left least e.bare (ofKinds rest)

def ReadsAssignment (ks : List TokenKind) (e : Expr) : Prop :=
  ∀ fuel rest, 8 * ks.length ≤ fuel → NoArrow (ks ++ rest) → (ofKinds rest).grip = 0 →
    assignment fuel (ofKinds (ks ++ rest)) = .ok (e.bare, ofKinds rest)

/-- The tokens are read as the expression wherever one of the given level may stand. -/
structure ReadsAt (level : Nat) (ks : List TokenKind) (e : Expr) : Prop where
  nonempty : ks ≠ []
  operand : 8 ≤ level → ReadsOperand ks e
  unary : 7 ≤ level → ReadsUnary ks e
  binary : 1 ≤ level → ReadsBinary level ks e
  assignment : ReadsAssignment ks e

variable {ks : List TokenKind} {e : Expr} {level : Nat}

theorem ReadsOperand.unary (reads : ReadsOperand ks e) : ReadsUnary ks e := by
  intro fuel rest enough noArrow loose
  obtain ⟨left, fuelLeft, same⟩ := reads fuel rest enough noArrow
  obtain ⟨left, rfl⟩ : ∃ n, left = n + 1 := ⟨left - 1, by omega⟩
  rw [same, postfixTail_ends left e.bare loose]

theorem ReadsUnary.binary (reads : ReadsUnary ks e) (nonempty : ks ≠ []) (level : Nat) :
    ReadsBinary level ks e := by
  intro least fuel rest low enough noArrow loose
  have length : 0 < ks.length := List.length_pos_iff.mpr nonempty
  obtain ⟨fuel, rfl⟩ : ∃ n, fuel = n + 1 := ⟨fuel - 1, by omega⟩
  refine ⟨fuel, by omega, ?_⟩
  rw [Grammar.binary, reads fuel rest (by omega) noArrow (by omega)]
  rfl

theorem ReadsBinary.closed (reads : ReadsBinary level ks e) (least fuel : Nat)
    {rest : List TokenKind} (low : least ≤ level) (enough : 8 * ks.length ≤ fuel + 2)
    (noArrow : NoArrow (ks ++ rest)) (loose : (ofKinds rest).grip < least + 2)
    (tight : least ≤ 7) :
    Grammar.binary fuel least (ofKinds (ks ++ rest)) = .ok (e.bare, ofKinds rest) := by
  obtain ⟨left, fuelLeft, same⟩ := reads least fuel rest low enough noArrow (by omega)
  obtain ⟨left, rfl⟩ : ∃ n, left = n + 1 := ⟨left - 1, by omega⟩
  rw [same, binaryTail_ends left e.bare loose]

theorem ReadsBinary.assignment (reads : ReadsBinary level ks e) (nonempty : ks ≠ [])
    (positive : 1 ≤ level) : ReadsAssignment ks e := by
  intro fuel rest enough noArrow loose
  have length : 0 < ks.length := List.length_pos_iff.mpr nonempty
  obtain ⟨fuel, rfl⟩ : ∃ n, fuel = n + 2 := ⟨fuel - 2, by omega⟩
  have question := Cursor.question_loose loose
  have assignOp := Cursor.assignOp?_loose loose
  have test := reads.closed 1 fuel positive (by omega) noArrow (by omega)
    (by omega)
  have whole : conditional (fuel + 1) (ofKinds (ks ++ rest)) = .ok (e.bare, ofKinds rest) := by
    simp only [conditional, test, bind, Except.bind, question, pure, Except.pure]
    rfl
  simp only [Grammar.assignment, atArrow_noArrow noArrow, whole, bind, Except.bind, assignOp, pure,
    Except.pure]
  rfl

namespace ReadsAt

theorem ofAssignment (nonempty : ks ≠ []) (reads : ReadsAssignment ks e) : ReadsAt 0 ks e :=
  { nonempty := nonempty
    operand := fun high => by omega
    unary := fun high => by omega
    binary := fun high => by omega
    assignment := reads }

theorem ofBinary (nonempty : ks ≠ []) (reads : ReadsBinary level ks e) (positive : 1 ≤ level)
    (low : level ≤ 6) : ReadsAt level ks e :=
  { nonempty := nonempty
    operand := fun high => by omega
    unary := fun high => by omega
    binary := fun _ => reads
    assignment := reads.assignment nonempty positive }

theorem ofUnary (nonempty : ks ≠ []) (reads : ReadsUnary ks e) : ReadsAt 7 ks e :=
  { nonempty := nonempty
    operand := fun high => by omega
    unary := fun _ => reads
    binary := fun _ => reads.binary nonempty 7
    assignment := (reads.binary nonempty 7).assignment nonempty (by omega) }

theorem ofOperand (nonempty : ks ≠ []) (reads : ReadsOperand ks e) : ReadsAt 8 ks e :=
  { nonempty := nonempty
    operand := fun _ => reads
    unary := fun _ => reads.unary
    binary := fun _ => reads.unary.binary nonempty 8
    assignment := (reads.unary.binary nonempty 8).assignment nonempty (by omega) }

theorem mono (reads : ReadsAt level ks e) (lower : Nat) (le : lower ≤ level) :
    ReadsAt lower ks e :=
  { nonempty := reads.nonempty
    operand := fun high => reads.operand (by omega)
    unary := fun high => reads.unary (by omega)
    binary := fun positive least fuel rest low enough noArrow loose =>
      reads.binary (by omega) least fuel rest (by omega) enough noArrow (by omega)
    assignment := reads.assignment }

end ReadsAt

theorem ReadsOperand.ofToken {k : TokenKind} (sign : k.unaryOp? = none) (step : k.updateOp? = none)
    (reads : ∀ fuel rest, primary (fuel + 1) (ofKinds (k :: rest)) = .ok (e.bare, ofKinds rest)) :
    ReadsOperand [k] e := by
  intro fuel rest enough noArrow
  simp only [List.length_cons, List.length_nil] at enough
  obtain ⟨fuel, rfl⟩ : ∃ n, fuel = n + 2 := ⟨fuel - 2, by omega⟩
  refine ⟨fuel + 1, by simp, ?_⟩
  simp only [List.cons_append, List.nil_append, Grammar.unary, Cursor.kind_ofKinds, sign, step,
    reads fuel rest, bind, Except.bind]

theorem ReadsOperand.parens (reads : ReadsAssignment ks e) :
    ReadsOperand (.mark .lparen :: (ks ++ [TokenKind.mark .rparen])) e := by
  intro fuel rest enough noArrow
  simp only [List.length_cons, List.length_append, List.length_nil] at enough
  obtain ⟨fuel, rfl⟩ : ∃ n, fuel = n + 2 := ⟨fuel - 2, by omega⟩
  refine ⟨fuel + 1, by simp; omega, ?_⟩
  simp only [List.cons_append, List.append_assoc, List.nil_append] at noArrow ⊢
  have inside := reads fuel (.mark .rparen :: rest) (by omega) noArrow.tail rfl
  have inner : primary (fuel + 1) (ofKinds (.mark .lparen :: (ks ++ .mark .rparen :: rest))) =
      .ok (e.bare, ofKinds rest) := by
    simp [primary, inside, bind, Except.bind, Cursor.expect_ofKinds, pure, Except.pure]
  simp [Grammar.unary, TokenKind.unaryOp?, TokenKind.updateOp?, inner, bind, Except.bind]

theorem ReadsAt.ofToken {k : TokenKind} (sign : k.unaryOp? = none) (step : k.updateOp? = none)
    (reads : ∀ fuel rest, primary (fuel + 1) (ofKinds (k :: rest)) = .ok (e.bare, ofKinds rest)) :
    ReadsAt 8 [k] e :=
  .ofOperand (by simp) (.ofToken sign step reads)

theorem ReadsAt.placed (reads : ReadsAt e.level e.tokens e) (least : Nat) (low : least ≤ 8) :
    ReadsAt least (e.placed least e.tokens) e := by
  unfold Expr.placed
  split
  · exact (ReadsAt.ofOperand (by simp) (ReadsOperand.parens reads.assignment)).mono _ low
  · exact reads.mono _ (by omega)

theorem binOp?_mark (op : BinOp) (rest : List TokenKind) :
    (ofKinds (.mark op.mark :: rest)).binOp? = some op := by
  cases op <;> rfl

theorem assignOp?_mark (op : AssignOp) (rest : List TokenKind) :
    (ofKinds (.mark op.mark :: rest)).assignOp? = some op := by
  cases op <;> rfl

theorem grip_mark (op : BinOp) (rest : List TokenKind) :
    (ofKinds (.mark op.mark :: rest)).grip = op.precedence + 2 := by
  cases op <;> rfl

theorem precedence_bounds (op : BinOp) : 1 ≤ op.precedence ∧ op.precedence ≤ 6 := by
  cases op <;> decide

theorem ReadsAt.sign (op : UnaryOp) (reads : ReadsAt 7 ks e) (s : Span) :
    ReadsAt 7 (op.token :: ks) (.unary op e s) := by
  refine .ofUnary (by simp) fun fuel rest enough noArrow loose => ?_
  simp only [List.length_cons] at enough
  obtain ⟨fuel, rfl⟩ : ∃ n, fuel = n + 1 := ⟨fuel - 1, by omega⟩
  have operand := reads.unary (by omega) fuel rest (by omega) noArrow.tail loose
  have kind : op.token.unaryOp? = some op := by cases op <;> rfl
  have more : op.token ≠ .eof := by cases op <;> simp [UnaryOp.token]
  simp only [List.cons_append, Grammar.unary, Cursor.kind_ofKinds, kind]
  simp [Cursor.advance_ofKinds more, operand, bind, Except.bind, pure, Except.pure, Expr.bare]

theorem ReadsAt.stepBefore (op : UpdateOp) (reads : ReadsAt 7 ks e) (s : Span) :
    ReadsAt 7 (.mark op.mark :: ks) (.update op true e s) := by
  refine .ofUnary (by simp) fun fuel rest enough noArrow loose => ?_
  simp only [List.length_cons] at enough
  obtain ⟨fuel, rfl⟩ : ∃ n, fuel = n + 1 := ⟨fuel - 1, by omega⟩
  have operand := reads.unary (by omega) fuel rest (by omega) noArrow.tail loose
  have sign : (TokenKind.mark op.mark).unaryOp? = none := by cases op <;> rfl
  have kind : (TokenKind.mark op.mark).updateOp? = some op := by cases op <;> rfl
  simp only [List.cons_append, Grammar.unary, Cursor.kind_ofKinds, sign, kind]
  simp [operand, bind, Except.bind, pure, Except.pure, Expr.bare]

theorem ReadsAt.behind {e' : Expr} {ls : List TokenKind} (reads : ReadsAt 8 ks e)
    (nonempty : ls ≠ [])
    (more : ∀ fuel rest, 8 * ls.length ≤ fuel + 8 → NoArrow (ls ++ rest) →
      postfixTail (fuel + 1) e.bare (ofKinds (ls ++ rest)) =
        postfixTail fuel e'.bare (ofKinds rest)) :
    ReadsAt 8 (ks ++ ls) e' := by
  refine .ofOperand (by simp [nonempty]) fun fuel rest enough noArrow => ?_
  have length : 0 < ls.length := List.length_pos_iff.mpr nonempty
  simp only [List.length_append] at enough
  rw [List.append_assoc] at noArrow ⊢
  obtain ⟨left, fuelLeft, same⟩ :=
    reads.operand (by omega) fuel (ls ++ rest) (by omega) noArrow
  obtain ⟨left, rfl⟩ : ∃ n, left = n + 1 := ⟨left - 1, by omega⟩
  refine ⟨left, by simp only [List.length_append]; omega, ?_⟩
  rw [same, more left rest (by omega) noArrow.right]

theorem ReadsAt.stepAfter (op : UpdateOp) (reads : ReadsAt 8 ks e) (s : Span) :
    ReadsAt 8 (ks ++ [TokenKind.mark op.mark]) (.update op false e s) := by
  apply reads.behind (by simp)
  intro fuel rest enough noArrow
  cases op <;> simp [UpdateOp.mark, postfixTail, Expr.bare]

theorem property_wordToken (name : String) (rest : List TokenKind) :
    (ofKinds (wordToken name :: rest)).property = .ok (name, ofKinds rest) := by
  unfold wordToken
  split
  · rename_i w found
    have text : w.text = name := by simpa using List.find?_some found
    simp [Cursor.property, text]
  · simp [Cursor.property]

theorem ReadsAt.member (name : String) (reads : ReadsAt 8 ks e) (s : Span) :
    ReadsAt 8 (ks ++ [TokenKind.mark .dot, wordToken name]) (.member e name s) := by
  apply reads.behind (by simp)
  intro fuel rest enough noArrow
  simp [postfixTail, property_wordToken, bind, Except.bind, Expr.bare]

theorem ReadsAt.index {i : Expr} {is : List TokenKind} (reads : ReadsAt 8 ks e)
    (readsIndex : ReadsAssignment is i) (s : Span) :
    ReadsAt 8 (ks ++ .mark .lbracket :: (is ++ [TokenKind.mark .rbracket])) (.index e i s) := by
  apply reads.behind (by simp)
  intro fuel rest enough noArrow
  simp only [List.length_cons, List.length_append, List.length_nil] at enough
  simp only [List.cons_append, List.append_assoc, List.nil_append] at noArrow ⊢
  have inside := readsIndex fuel (.mark .rbracket :: rest) (by omega) noArrow.tail rfl
  simp [postfixTail, inside, Cursor.expect_ofKinds, bind, Except.bind, Expr.bare]

theorem ReadsAt.binaryOp {l r : Expr} {ls rs : List TokenKind} (op : BinOp)
    (readsLeft : ReadsAt op.precedence ls l) (readsRight : ReadsAt (op.precedence + 1) rs r)
    (s : Span) : ReadsAt op.precedence (ls ++ .mark op.mark :: rs) (.binary l op r s) := by
  obtain ⟨positive, low⟩ := precedence_bounds op
  refine .ofBinary (by simp) (fun least fuel rest below enough noArrow loose => ?_) positive low
  simp only [List.length_append, List.length_cons] at enough
  simp only [List.append_assoc, List.cons_append] at noArrow ⊢
  obtain ⟨left, fuelLeft, same⟩ := readsLeft.binary positive least fuel
    (.mark op.mark :: (rs ++ rest)) below (by omega) noArrow (by rw [grip_mark]; omega)
  have length : 0 < rs.length := List.length_pos_iff.mpr readsRight.nonempty
  obtain ⟨left, rfl⟩ : ∃ n, left = n + 1 := ⟨left - 1, by omega⟩
  have right := (readsRight.binary (by omega)).closed (op.precedence + 1) left
    (Nat.le_refl _) (by omega) noArrow.right.tail (by omega) (by omega)
  refine ⟨left, by simp only [List.length_append, List.length_cons]; omega, ?_⟩
  rw [same, binaryTail, binOp?_mark]
  simp [Nat.not_lt.mpr below, right, bind, Except.bind, Expr.bare]

theorem level_of_isTarget {t : Expr} (target : t.isTarget = true) : t.level = 8 := by
  cases t with
  | ident | member | index | array => rfl
  | _ => cases target

theorem ReadsAt.assign {t v : Expr} {ts vs : List TokenKind} (op : AssignOp)
    (target : t.isTarget = true) (readsTarget : ReadsAt 1 ts t) (readsValue : ReadsAssignment vs v)
    (s : Span) : ReadsAssignment (ts ++ .mark op.mark :: vs) (.assign op t v s) := by
  intro fuel rest enough noArrow loose
  simp only [List.length_append, List.length_cons] at enough
  simp only [List.append_assoc, List.cons_append] at noArrow ⊢
  obtain ⟨fuel, rfl⟩ : ∃ n, fuel = n + 2 := ⟨fuel - 2, by omega⟩
  have grip : (ofKinds (.mark op.mark :: (vs ++ rest))).grip = 1 := by cases op <;> rfl
  have left := (readsTarget.binary (Nat.le_refl _)).closed 1 fuel (Nat.le_refl _)
    (by omega) noArrow (by omega) (by omega)
  have question : (ofKinds (.mark op.mark :: (vs ++ rest))).sees .question = false := by
    cases op <;> rfl
  have whole : conditional (fuel + 1) (ofKinds (ts ++ .mark op.mark :: (vs ++ rest))) =
      .ok (t.bare, ofKinds (.mark op.mark :: (vs ++ rest))) := by
    simp only [conditional, left, bind, Except.bind, question, pure, Except.pure]
    rfl
  have value := readsValue (fuel + 1) rest (by omega) noArrow.right.tail loose
  rw [Grammar.assignment]
  simp [atArrow_noArrow noArrow, whole, bind, Except.bind, assignOp?_mark, target, value, pure,
    Except.pure, Expr.bare]

theorem ReadsAt.conditional {t c a : Expr} {ts cs as : List TokenKind} (readsTest : ReadsAt 1 ts t)
    (readsConsequent : ReadsAssignment cs c) (readsAlternate : ReadsAssignment as a) (s : Span) :
    ReadsAssignment (ts ++ .mark .question :: (cs ++ .mark .colon :: as))
      (.conditional t c a s) := by
  intro fuel rest enough noArrow loose
  simp only [List.length_append, List.length_cons] at enough
  simp only [List.append_assoc, List.cons_append] at noArrow ⊢
  obtain ⟨fuel, rfl⟩ : ∃ n, fuel = n + 2 := ⟨fuel - 2, by omega⟩
  have test := (readsTest.binary (Nat.le_refl _)).closed 1 fuel (Nat.le_refl _)
    (by omega) noArrow (by simp [Cursor.grip, TokenKind.grip, Mark.grip])
    (by omega)
  have consequent := readsConsequent fuel (.mark .colon :: (as ++ rest)) (by omega)
    noArrow.right.tail rfl
  have alternate := readsAlternate fuel rest (by omega) noArrow.right.tail.right.tail loose
  have assignOp := Cursor.assignOp?_loose loose
  simp [Grammar.assignment, atArrow_noArrow noArrow, Grammar.conditional, test, bind, Except.bind,
    Cursor.sees, consequent, Cursor.expect_ofKinds, alternate, assignOp, pure, Except.pure,
    Expr.bare]

theorem bind_ne_ok {α β : Type} {x : Except SyntaxError α} (never : ∀ a, x ≠ .ok a)
    (f : α → Except SyntaxError β) (b : β) : (x >>= f) ≠ .ok b := by
  cases x with
  | ok a => exact absurd rfl (never a)
  | error e => simp [bind, Except.bind]

theorem assignment_ne_close {close : Mark} (closes : close.Closes)
    (fuel : Nat) (rest : List TokenKind) (r : Expr × Cursor) :
    Grammar.assignment fuel (ofKinds (.mark close :: rest)) ≠ .ok r := by
  have primary (fuel : Nat) (r : Expr × Cursor) :
      Grammar.primary fuel (ofKinds (.mark close :: rest)) ≠ .ok r := by
    rcases closes with rfl | rfl | rfl <;> cases fuel <;> simp [Grammar.primary, Cursor.fail]
  have unary (fuel : Nat) (r : Expr × Cursor) :
      Grammar.unary fuel (ofKinds (.mark close :: rest)) ≠ .ok r := by
    rcases fuel with _ | fuel
    · simp [Grammar.unary, Cursor.fail]
    · rcases closes with rfl | rfl | rfl <;> exact bind_ne_ok (primary fuel) _ _
  have binary (fuel : Nat) (r : Expr × Cursor) :
      Grammar.binary fuel 1 (ofKinds (.mark close :: rest)) ≠ .ok r := by
    rcases fuel with _ | fuel
    · simp [Grammar.binary, Cursor.fail]
    · exact bind_ne_ok (unary fuel) _ _
  have conditional (fuel : Nat) (r : Expr × Cursor) :
      Grammar.conditional fuel (ofKinds (.mark close :: rest)) ≠ .ok r := by
    rcases fuel with _ | fuel
    · simp [Grammar.conditional, Cursor.fail]
    · exact bind_ne_ok (binary fuel) _ _
  rcases fuel with _ | fuel
  · simp [Grammar.assignment, Cursor.fail]
  · have atArrow : (ofKinds (.mark close :: rest)).atArrow = false := by
      rcases closes with rfl | rfl | rfl <;> rfl
    rw [Grammar.assignment, atArrow]
    exact bind_ne_ok (conditional fuel) _ _

theorem ReadsAssignment.start (reads : ReadsAssignment ks e) (nonempty : ks ≠ []) (close : Mark)
    (closes : close.Closes) {rest : List TokenKind}
    (noArrow : NoArrow (ks ++ rest)) (loose : (ofKinds rest).grip = 0) :
    (ofKinds (ks ++ rest)).sees close = false := by
  obtain ⟨k, ks, rfl⟩ := List.exists_cons_of_ne_nil nonempty
  have read := reads _ rest (Nat.le_refl _) noArrow loose
  -- `items` looks for the closing mark first, and no expression begins with one.
  have other : k ≠ .mark close := by
    rintro rfl
    exact assignment_ne_close closes _ _ _ read
  simp [Cursor.sees, other]

def ReadsList (es : List Expr) : Prop := ∀ e ∈ es, ReadsAt 0 e.tokens e

theorem items_listTokens {es : List Expr} (reads : ReadsList es) {close : Mark}
    (closes : close.Closes) (fuel : Nat) (rest : List TokenKind)
    (enough : 8 * (Expr.listTokens es).length ≤ fuel)
    (noArrow : NoArrow (Expr.listTokens es ++ .mark close :: rest)) :
    items (fuel + 1) close (ofKinds (Expr.listTokens es ++ .mark close :: rest)) =
      .ok (Expr.bares es, ofKinds rest) := by
  have loose : (ofKinds (.mark close :: rest)).grip = 0 := by
    rcases closes with rfl | rfl | rfl <;> rfl
  induction es generalizing fuel with
  | nil => simp [Expr.listTokens, items, Cursor.sees, Expr.bares]
  | cons e es ih =>
    have readsFirst := reads e (by simp)
    have readsRest : ReadsList es := fun e' member => reads e' (by simp [member])
    rcases es with _ | ⟨e', es⟩
    · simp only [Expr.listTokens, Expr.tailTokens, List.append_nil] at enough noArrow ⊢
      have start := readsFirst.assignment.start readsFirst.nonempty _ closes noArrow loose
      have first := readsFirst.assignment fuel (.mark close :: rest) (by omega) noArrow loose
      have comma : (ofKinds (.mark close :: rest)).sees .comma = false := by
        rcases closes with rfl | rfl | rfl <;> rfl
      simp [items, start, first, bind, Except.bind, comma, Cursor.expect_ofKinds, pure, Except.pure,
        Expr.bares]
    · have length : 0 < e.tokens.length := List.length_pos_iff.mpr readsFirst.nonempty
      have tail : Expr.tailTokens (e' :: es) = .mark .comma :: Expr.listTokens (e' :: es) := rfl
      rw [Expr.listTokens, tail, List.append_assoc, List.cons_append] at noArrow ⊢
      rw [Expr.listTokens, tail, List.length_append, List.length_cons] at enough
      obtain ⟨fuel, rfl⟩ : ∃ n, fuel = n + 1 := ⟨fuel - 1, by omega⟩
      have start := readsFirst.assignment.start readsFirst.nonempty _ closes noArrow rfl
      have first := readsFirst.assignment (fuel + 1)
        (.mark .comma :: (Expr.listTokens (e' :: es) ++ .mark close :: rest)) (by omega) noArrow rfl
      have others := ih readsRest fuel (by omega) noArrow.right.tail
      have comma : (ofKinds (.mark .comma :: (Expr.listTokens (e' :: es) ++
          .mark close :: rest))).sees .comma = true := rfl
      rw [items]
      simp [start, first, bind, Except.bind, comma, others, pure, Except.pure, Expr.bares]

theorem ReadsAt.array {es : List Expr} (reads : ReadsList es) (s : Span) :
    ReadsAt 8 (.mark .lbracket :: (Expr.listTokens es ++ [TokenKind.mark .rbracket]))
      (.array es s) := by
  refine .ofOperand (by simp) fun fuel rest enough noArrow => ?_
  simp only [List.length_cons, List.length_append, List.length_nil] at enough
  obtain ⟨fuel, rfl⟩ : ∃ n, fuel = n + 3 := ⟨fuel - 3, by omega⟩
  refine ⟨fuel + 2, by simp only [List.length_cons, List.length_append, List.length_nil]; omega, ?_⟩
  simp only [List.cons_append, List.append_assoc, List.nil_append] at noArrow ⊢
  have inside := items_listTokens reads (.inr (.inl rfl)) fuel rest (by omega) noArrow.tail
  have primary : primary (fuel + 2)
      (ofKinds (.mark .lbracket :: (Expr.listTokens es ++ .mark .rbracket :: rest))) =
      .ok ((Expr.array es s).bare, ofKinds rest) := by
    simp [primary, inside, bind, Except.bind, pure, Except.pure, Expr.bare]
  simp [Grammar.unary, TokenKind.unaryOp?, TokenKind.updateOp?, primary, bind, Except.bind]

theorem ReadsAt.call {es : List Expr} (reads : ReadsAt 8 ks e) (readsArgs : ReadsList es)
    (s : Span) :
    ReadsAt 8 (ks ++ .mark .lparen :: (Expr.listTokens es ++ [TokenKind.mark .rparen]))
      (.call e es s) := by
  apply reads.behind (by simp)
  intro fuel rest enough noArrow
  simp only [List.length_cons, List.length_append, List.length_nil] at enough
  simp only [List.cons_append, List.append_assoc, List.nil_append] at noArrow ⊢
  obtain ⟨fuel, rfl⟩ : ∃ n, fuel = n + 1 := ⟨fuel - 1, by omega⟩
  have inside := items_listTokens readsArgs (.inl rfl) fuel rest (by omega) noArrow.tail
  simp [postfixTail, inside, bind, Except.bind, Expr.bare]

mutual

theorem reads_tokens : ∀ e : Expr, e.isPlain = true → ReadsAt e.level e.tokens e
  | .number .., _ | .str .., _ | .template .., _ | .bool true _, _ | .bool false _, _ | .null _, _
  | .ident .., _ => .ofToken rfl rfl fun fuel rest => by simp [primary, Expr.bare]
  | .array es s, plain => .array (reads_listTokens es plain) s
  | .unary op e s, plain => ((reads_tokens e plain).placed _ (by omega)).sign op s
  | .update op true e s, plain =>
    (((reads_tokens e plain).placed _ (by omega)).mono _ (by omega)).stepBefore op s
  | .update op false e s, plain => ((reads_tokens e plain).placed _ (by omega)).stepAfter op s
  | .member e name s, plain => ((reads_tokens e plain).placed _ (by omega)).member name s
  | .index e i s, plain => by
    simp only [Expr.isPlain, Bool.and_eq_true] at plain
    exact ((reads_tokens e plain.1).placed _ (by omega)).index (reads_tokens i plain.2).assignment s
  | .call e es s, plain => by
    simp only [Expr.isPlain, Bool.and_eq_true] at plain
    exact ((reads_tokens e plain.1).placed _ (by omega)).call (reads_listTokens es plain.2) s
  | .binary l op r s, plain => by
    simp only [Expr.isPlain, Bool.and_eq_true] at plain
    obtain ⟨positive, low⟩ := precedence_bounds op
    exact ((reads_tokens l plain.1).placed _ (by omega)).binaryOp op
      ((reads_tokens r plain.2).placed _ (by omega)) s
  | .conditional t c a s, plain => by
    simp only [Expr.isPlain, Bool.and_eq_true] at plain
    have test := (reads_tokens t plain.1.1).placed 1 (by omega)
    exact .ofAssignment (by simp [Expr.tokens])
      (test.conditional (reads_tokens c plain.1.2).assignment (reads_tokens a plain.2).assignment s)
  | .assign op t v s, plain => by
    simp only [Expr.isPlain, Bool.and_eq_true] at plain
    -- A target binds tightest, so it needs no parentheses to stand there.
    have level := level_of_isTarget plain.1.1
    have target := (reads_tokens t plain.1.2).mono 1 (by omega)
    exact .ofAssignment (by simp [Expr.tokens])
      (target.assign op plain.1.1 (reads_tokens v plain.2).assignment s)

theorem reads_listTokens : ∀ es : List Expr, Expr.arePlain es = true → ReadsList es
  | [], _ => by simp [ReadsList]
  | e :: es, plain => by
    simp only [Expr.arePlain, Bool.and_eq_true] at plain
    have first := reads_tokens e plain.1
    have others := reads_listTokens es plain.2
    intro e' member
    rcases List.mem_cons.mp member with rfl | member
    · exact first.mono 0 (Nat.zero_le _)
    · exact others e' member

end

end Grammar

end SortTrace.Script
