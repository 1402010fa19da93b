import SortTrace.Proofs.Script.Contents
import SortTrace.Proofs.Script.Forward
import SortTrace.Proofs.Script.Lexemes

/-!
Legible expressions: those whose printed text can be scanned again. The names in an expression that
was read from a text are spelled as names; what else is needed is that no number is infinite, that
texts need no escapes that the scanner does not know, and that no two signs run into each other.
-/

namespace SortTrace.Script

open Text

mutual

/-- Names are identifiers, properties are words, and assigned to are only targets. -/
def Expr.isSpelled : Expr → Bool
  | .number .. | .str .. | .template .. | .bool .. | .null _ | .func .. => true
  | .ident name _ => isIdentifier name
  | .array items _ => Expr.areSpelled items
  | .unary _ e _ | .update _ _ e _ => e.isSpelled
  | .binary l _ r _ | .index l r _ => l.isSpelled && r.isSpelled
  | .assign _ t v _ => t.isTarget && t.isSpelled && v.isSpelled
  | .conditional t c a _ => t.isSpelled && c.isSpelled && a.isSpelled
  | .call f args _ => f.isSpelled && Expr.areSpelled args
  | .member o p _ => o.isSpelled && isWord p

def Expr.areSpelled : List Expr → Bool
  | [] => true
  | e :: rest => e.isSpelled && Expr.areSpelled rest

end

/-- Printed in front of the operand, the sign would be taken for a step by one. -/
def UnaryOp.runsInto : UnaryOp → Expr → Bool
  | .neg, .unary .neg _ _ | .neg, .update .decrement true _ _ => true
  | .plus, .unary .plus _ _ | .plus, .update .increment true _ _ => true
  | _, _ => false

mutual

/-- Without functions, infinite numbers, texts that the scanner cannot read back, and signs that
run into each other. -/
def Expr.isLegible : Expr → Bool
  | .number v _ => !v.isInfinite
  | .str v _ => v.toList.all isShort
  | .template v _ => !v.toList.contains '\x60' && !v.toList.contains '\\'
  | .bool .. | .null _ | .ident .. => true
  | .array items _ => Expr.areLegible items
  | .unary op e _ => !op.runsInto e && e.isLegible
  | .update _ _ e _ | .member e _ _ => e.isLegible
  | .binary l _ r _ | .assign _ l r _ | .index l r _ => l.isLegible && r.isLegible
  | .conditional t c a _ => t.isLegible && c.isLegible && a.isLegible
  | .call f args _ => f.isLegible && Expr.areLegible args
  | .func .. => false

def Expr.areLegible : List Expr → Bool
  | [] => true
  | e :: rest => e.isLegible && Expr.areLegible rest

end

theorem nameLexeme_ident {first : Char} {rest : List Char} {name : String} {more : Nat}
    (start : isNameStart first = true)
    (lexeme : nameLexeme first rest = .token (.ident name) more) : isIdentifier name = true := by
  simp only [nameLexeme] at lexeme
  split at lexeme
  · cases lexeme
  · rename_i free
    cases lexeme
    have parts : (rest.takeWhile isNamePart).all isNamePart = true := by simp
    rw [isIdentifier, String.toList_ofList]
    simp only [start, parts, free]
    rfl

theorem lexemeAt_ident {first : Char} {rest : List Char} {name : String} {more : Nat}
    (lexeme : lexemeAt first rest = .token (.ident name) more) : isIdentifier name = true := by
  cases (lexemeAt_token lexeme).2 with
  | name start lexeme => exact nameLexeme_ident start lexeme

theorem scanFrom_ident {cs : List Char} {skip : Nat} {p : Position} {tokens : List Token}
    (scanned : scanFrom cs skip p = .ok tokens) {name : String}
    (member : .ident name ∈ tokens.map Token.kind) : isIdentifier name = true := by
  induction cs generalizing skip p tokens with
  | nil =>
    cases scanned
    simp at member
  | cons c rest ih =>
    rcases skip with _ | skip
    · rw [scanFrom] at scanned
      split at scanned
      · exact ih scanned member
      · rename_i kind more lexeme
        split at scanned
        · rename_i others further
          cases scanned
          rw [List.map_cons, List.mem_cons] at member
          rcases member with rfl | member
          · exact lexemeAt_ident lexeme
          · exact ih further member
        · cases scanned
      · cases scanned
    · exact ih scanned member

theorem areSpelled_of_forall {es : List Expr} (all : ∀ e ∈ es, e.isSpelled = true) :
    Expr.areSpelled es = true := by
  induction es with
  | nil => rfl
  | cons e es ih =>
    have others := ih fun e member => all e (by simp [member])
    rw [Expr.areSpelled, all e (by simp), others, Bool.and_true]

theorem Expr.BuiltFrom.isSpelled {ks : List TokenKind} {e : Expr} (built : e.BuiltFrom ks)
    (names : ∀ name, .ident name ∈ ks → isIdentifier name = true) : e.isSpelled = true := by
  induction built with
  | number | str | template | bool | null | func => rfl
  | ident s member => exact names _ member
  | array s items ih => exact areSpelled_of_forall ih
  | unary op s built ih | update op before s built ih => exact ih
  | binary op s left right ihLeft ihRight | index s left right ihLeft ihRight =>
    rw [Expr.isSpelled, ihLeft, ihRight, Bool.and_true]
  | assign op s target builtTarget builtValue ihTarget ihValue =>
    rw [Expr.isSpelled, target, ihTarget, ihValue, Bool.and_true, Bool.and_true]
  | conditional s test consequent alternate ihTest ihConsequent ihAlternate =>
    rw [Expr.isSpelled, ihTest, ihConsequent, ihAlternate, Bool.and_true, Bool.and_true]
  | call s callee args ihCallee ihArgs =>
    rw [Expr.isSpelled, ihCallee, areSpelled_of_forall ihArgs, Bool.and_true]
  | @member o p s object spelled ih =>
    have word : isWord p = true := by
      rcases spelled with member | ⟨w, rfl⟩
      · exact isWord_of_isIdentifier (names _ member)
      · exact isWord_text w
    rw [Expr.isSpelled, ih, word, Bool.and_true]

theorem isSpelled_of_read {text : String} {tokens : List Token} (scanned : scan text = .ok tokens)
    {start rest : Cursor} (inside : start.Inside tokens) {fuel : Nat} {e : Expr}
    (read : Grammar.assignment fuel start = .ok (e, rest)) : e.isSpelled = true :=
  (((Grammar.forward tokens fuel).assignment start inside e rest read).1).isSpelled
    fun _ member => scanFrom_ident scanned member

end SortTrace.Script
