import SortTrace.Proofs.Script.Spelling
import SortTrace.Script.Grammar

/-!
The tokens of a printed expression. The printer puts parentheses around an operand whose level is
too low for its place.
-/

namespace SortTrace.Script

def UnaryOp.token : UnaryOp → TokenKind
  | neg => .mark .minus
  | plus => .mark .plus
  | not => .mark .bang
  | typeof => .word .typeofWord

def UpdateOp.mark : UpdateOp → Mark
  | increment => .plusPlus
  | decrement => .minusMinus

def BinOp.mark : BinOp → Mark
  | add => .plus
  | sub => .minus
  | mul => .star
  | div => .slash
  | mod => .percent
  | eq => .eqEq
  | strictEq => .eqEqEq
  | notEq => .notEq
  | strictNotEq => .notEqEq
  | lt => .lt
  | gt => .gt
  | ltEq => .ltEq
  | gtEq => .gtEq
  | and => .ampAmp
  | or => .pipePipe

def AssignOp.mark : AssignOp → Mark
  | assign => .eq
  | add => .plusEq
  | sub => .minusEq
  | mul => .starEq
  | div => .slashEq
  | mod => .percentEq

def Expr.placed (least : Nat) (e : Expr) (ks : List TokenKind) : List TokenKind :=
  if e.level < least then .mark .lparen :: (ks ++ [TokenKind.mark .rparen]) else ks

mutual

/-- The tokens of a printed expression. Functions are left out: their bodies are not printed. -/
def Expr.tokens : Expr → List TokenKind
  | .number v _ => [.number v]
  | .str v _ => [.str v]
  | .template v _ => [.template v]
  | .bool true _ => [.word .trueWord]
  | .bool false _ => [.word .falseWord]
  | .null _ => [.word .nullWord]
  | .ident name _ => [.ident name]
  | .array items _ => .mark .lbracket :: (Expr.listTokens items ++ [TokenKind.mark .rbracket])
  | .unary op e _ => op.token :: e.placed 7 e.tokens
  | .update op true e _ => .mark op.mark :: e.placed 8 e.tokens
  | .update op false e _ => e.placed 8 e.tokens ++ [TokenKind.mark op.mark]
  | .binary l op r _ =>
    l.placed op.precedence l.tokens ++ .mark op.mark :: r.placed (op.precedence + 1) r.tokens
  | .assign op t v _ => t.tokens ++ .mark op.mark :: v.tokens
  | .conditional t c a _ =>
    t.placed 1 t.tokens ++ .mark .question :: (c.tokens ++ .mark .colon :: a.tokens)
  | .call f args _ =>
    f.placed 8 f.tokens ++ .mark .lparen :: (Expr.listTokens args ++ [TokenKind.mark .rparen])
  | .member o p _ => o.placed 8 o.tokens ++ [TokenKind.mark .dot, wordToken p]
  | .index o i _ =>
    o.placed 8 o.tokens ++ .mark .lbracket :: (i.tokens ++ [TokenKind.mark .rbracket])
  | .func .. => []

def Expr.listTokens : List Expr → List TokenKind
  | [] => []
  | e :: rest => e.tokens ++ Expr.tailTokens rest

def Expr.tailTokens : List Expr → List TokenKind
  | [] => []
  | e :: rest => .mark .comma :: (e.tokens ++ Expr.tailTokens rest)

end

mutual

/-- Without functions, and assigned to are only targets. -/
def Expr.isPlain : Expr → Bool
  | .number .. | .str .. | .template .. | .bool .. | .null _ | .ident .. => true
  | .array items _ => Expr.arePlain items
  | .unary _ e _ | .update _ _ e _ | .member e _ _ => e.isPlain
  | .binary l _ r _ | .index l r _ => l.isPlain && r.isPlain
  | .assign _ t v _ => t.isTarget && t.isPlain && v.isPlain
  | .conditional t c a _ => t.isPlain && c.isPlain && a.isPlain
  | .call f args _ => f.isPlain && Expr.arePlain args
  | .func .. => false

def Expr.arePlain : List Expr → Bool
  | [] => true
  | e :: rest => e.isPlain && Expr.arePlain rest

end

namespace Grammar

def NoArrow (ks : List TokenKind) : Prop := .mark .fatArrow ∉ ks

@[simp] theorem noArrow_nil : NoArrow [] := List.not_mem_nil

@[simp] theorem noArrow_cons {k : TokenKind} {ks : List TokenKind} :
    NoArrow (k :: ks) ↔ k ≠ .mark .fatArrow ∧ NoArrow ks := by
  simp [NoArrow, eq_comm]

@[simp] theorem noArrow_append {ks ls : List TokenKind} :
    NoArrow (ks ++ ls) ↔ NoArrow ks ∧ NoArrow ls := by
  simp [NoArrow]

theorem NoArrow.right {ks ls : List TokenKind} (noArrow : NoArrow (ks ++ ls)) : NoArrow ls :=
  (noArrow_append.mp noArrow).2

theorem NoArrow.tail {k : TokenKind} {ks : List TokenKind} (noArrow : NoArrow (k :: ks)) :
    NoArrow ks :=
  (noArrow_cons.mp noArrow).2

theorem NoArrow.placed {e : Expr} {ks : List TokenKind} (noArrow : NoArrow ks) (least : Nat) :
    NoArrow (e.placed least ks) := by
  unfold Expr.placed
  split
  · simp [noArrow]
  · exact noArrow

theorem token_ne_fatArrow (op : UnaryOp) : op.token ≠ .mark .fatArrow := by
  cases op <;> simp [UnaryOp.token]

theorem updateMark_ne_fatArrow (op : UpdateOp) : op.mark ≠ .fatArrow := by
  cases op <;> simp [UpdateOp.mark]

theorem binMark_ne_fatArrow (op : BinOp) : op.mark ≠ .fatArrow := by
  cases op <;> simp [BinOp.mark]

theorem assignMark_ne_fatArrow (op : AssignOp) : op.mark ≠ .fatArrow := by
  cases op <;> simp [AssignOp.mark]

theorem wordToken_ne_mark (name : String) (m : Mark) : wordToken name ≠ .mark m := by
  unfold wordToken
  split <;> simp

mutual

theorem noArrow_tokens : ∀ e : Expr, NoArrow e.tokens
  | .number .. | .str .. | .template .. | .bool true _ | .bool false _ | .null _ | .ident .. => by
    simp [Expr.tokens]
  | .func .. => noArrow_nil
  | .array es _ => by simp [Expr.tokens, noArrow_listTokens es]
  | .unary op e _ => by
    simp [Expr.tokens, token_ne_fatArrow op, (noArrow_tokens e).placed]
  | .update op true e _ => by
    simp [Expr.tokens, updateMark_ne_fatArrow op, (noArrow_tokens e).placed]
  | .update op false e _ => by
    simp [Expr.tokens, updateMark_ne_fatArrow op, (noArrow_tokens e).placed]
  | .binary l op r _ => by
    simp [Expr.tokens, binMark_ne_fatArrow op, (noArrow_tokens l).placed,
      (noArrow_tokens r).placed]
  | .assign op t v _ => by
    simp [Expr.tokens, assignMark_ne_fatArrow op, noArrow_tokens t, noArrow_tokens v]
  | .conditional t c a _ => by
    simp [Expr.tokens, (noArrow_tokens t).placed, noArrow_tokens c, noArrow_tokens a]
  | .call f es _ => by simp [Expr.tokens, (noArrow_tokens f).placed, noArrow_listTokens es]
  | .member o name _ => by
    simp [Expr.tokens, (noArrow_tokens o).placed, wordToken_ne_mark name]
  | .index o i _ => by simp [Expr.tokens, (noArrow_tokens o).placed, noArrow_tokens i]

theorem noArrow_listTokens : ∀ es : List Expr, NoArrow (Expr.listTokens es)
  | [] => noArrow_nil
  | e :: es => by simp [Expr.listTokens, noArrow_tokens e, noArrow_tailTokens es]

theorem noArrow_tailTokens : ∀ es : List Expr, NoArrow (Expr.tailTokens es)
  | [] => noArrow_nil
  | e :: es => by simp [Expr.tailTokens, noArrow_tokens e, noArrow_tailTokens es]

end

end Grammar

end SortTrace.Script
