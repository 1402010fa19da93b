import SortTrace.Proofs.Script.Legible
import SortTrace.Proofs.Script.Phrase

/-!
What an expression looks like in print. An infinite number looks like a name. A step in front of an
operand looks like two signs, unless the operand is signed itself: behind a sign it would stand
without parentheses.
-/

namespace SortTrace.Script

def UpdateOp.sign : UpdateOp → UnaryOp
  | increment => .plus
  | decrement => .neg

theorem UpdateOp.text_sign (op : UpdateOp) : op.text = op.sign.text ++ op.sign.text := by
  cases op <;> rfl

mutual

/-- The expression that is printed in the same way, without spans. -/
def Expr.apparent : Expr → Expr
  | .number v _ => if v.isInfinite then .ident v.text {} else .number v {}
  | .str v _ => .str v {}
  | .template v _ => .template v {}
  | .bool v _ => .bool v {}
  | .null _ => .null {}
  | .ident name _ => .ident name {}
  | .array items _ => .array (Expr.apparents items) {}
  | .unary op e _ => .unary op e.apparent {}
  | .update op true e _ =>
    if e.level = 7 then .update op true e.apparent {}
    else .unary op.sign (.unary op.sign e.apparent {}) {}
  | .update op false e _ => .update op false e.apparent {}
  | .binary l op r _ => .binary l.apparent op r.apparent {}
  | .assign op t v _ => .assign op t.apparent v.apparent {}
  | .conditional t c a _ => .conditional t.apparent c.apparent a.apparent {}
  | .call f args _ => .call f.apparent (Expr.apparents args) {}
  | .member o p _ => .member o.apparent p {}
  | .index o i _ => .index o.apparent i.apparent {}
  | .func f _ => .func f.bare {}

def Expr.apparents : List Expr → List Expr
  | [] => []
  | e :: rest => e.apparent :: Expr.apparents rest

end

mutual

/-- Without functions, and no template has a grave accent in it. -/
def Expr.isClear : Expr → Bool
  | .number .. | .str .. | .bool .. | .null _ | .ident .. => true
  | .template v _ => !v.toList.contains '\x60'
  | .array items _ => Expr.areClear items
  | .unary _ e _ | .update _ _ e _ | .member e _ _ => e.isClear
  | .binary l _ r _ | .assign _ l r _ | .index l r _ => l.isClear && r.isClear
  | .conditional t c a _ => t.isClear && c.isClear && a.isClear
  | .call f args _ => f.isClear && Expr.areClear args
  | .func .. => false

def Expr.areClear : List Expr → Bool
  | [] => true
  | e :: rest => e.isClear && Expr.areClear rest

end

mutual

/-- No number is infinite, and no sign stands in front of the same sign. -/
def Expr.isDistinct : Expr → Bool
  | .number v _ => !v.isInfinite
  | .str .. | .template .. | .bool .. | .null _ | .ident .. | .func .. => true
  | .array items _ => Expr.areDistinct items
  | .unary op e _ => !op.runsInto e && e.isDistinct
  | .update _ _ e _ | .member e _ _ => e.isDistinct
  | .binary l _ r _ | .assign _ l r _ | .index l r _ => l.isDistinct && r.isDistinct
  | .conditional t c a _ => t.isDistinct && c.isDistinct && a.isDistinct
  | .call f args _ => f.isDistinct && Expr.areDistinct args

def Expr.areDistinct : List Expr → Bool
  | [] => true
  | e :: rest => e.isDistinct && Expr.areDistinct rest

end

theorem Expr.level_le (e : Expr) : e.level ≤ 8 := by
  cases e with
  | binary l op r s => exact Nat.le_trans (Grammar.precedence_bounds op).2 (by decide)
  | update op before e s => cases before <;> simp [Expr.level]
  | _ => simp [Expr.level]

@[simp] theorem Expr.level_apparent (e : Expr) : e.apparent.level = e.level := by
  cases e with
  | number v s => rw [Expr.apparent]; split <;> rfl
  | update op before e s =>
    cases before with
    | true => rw [Expr.apparent]; split <;> rfl
    | false => rfl
  | _ => rfl

mutual

@[simp] theorem Expr.text_apparent : ∀ e : Expr, e.apparent.text = e.text
  | .number v _ => by
    rw [Expr.apparent]
    split <;> rfl
  | .str .. | .template .. | .bool .. | .null _ | .ident .. => rfl
  | .array items _ => by simp only [Expr.apparent, Expr.text, Expr.listText_apparents items]
  | .unary op e _ => by
    simp only [Expr.apparent, Expr.text, Expr.inPlace, e.level_apparent, e.text_apparent]
  | .update op true e _ => by
    rw [Expr.apparent]
    split
    · simp only [Expr.text, Expr.inPlace, e.level_apparent, e.text_apparent]
    · rename_i unsigned
      -- Behind the two signs the operand is in parentheses just if it is behind the step.
      have bound := e.level_le
      have place : e.level < 7 ↔ e.level < 8 := by omega
      have level : (Expr.unary op.sign e.apparent {}).level = 7 := rfl
      simp only [Expr.text, Expr.inPlace, level, e.level_apparent, e.text_apparent, place,
        Nat.lt_irrefl, if_false, if_true, op.text_sign, String.append_assoc]
  | .update op false e _ => by
    simp only [Expr.apparent, Expr.text, Expr.inPlace, e.level_apparent, e.text_apparent]
  | .binary l op r _ => by
    simp only [Expr.apparent, Expr.text, Expr.inPlace, l.level_apparent, r.level_apparent,
      l.text_apparent, r.text_apparent]
  | .assign op t v _ => by simp only [Expr.apparent, Expr.text, t.text_apparent, v.text_apparent]
  | .conditional t c a _ => by
    simp only [Expr.apparent, Expr.text, Expr.inPlace, t.level_apparent, t.text_apparent,
      c.text_apparent, a.text_apparent]
  | .call f args _ => by
    simp only [Expr.apparent, Expr.text, Expr.inPlace, f.level_apparent, f.text_apparent,
      Expr.listText_apparents args]
  | .member o p _ => by
    simp only [Expr.apparent, Expr.text, Expr.inPlace, o.level_apparent, o.text_apparent]
  | .index o i _ => by
    simp only [Expr.apparent, Expr.text, Expr.inPlace, o.level_apparent, o.text_apparent,
      i.text_apparent]
  | .func f s => (Expr.func f s).text_bare

theorem Expr.listText_apparents : ∀ es : List Expr,
    Expr.listText (Expr.apparents es) = Expr.listText es
  | [] => rfl
  | e :: rest => by
    simp only [Expr.apparents, Expr.listText, e.text_apparent, Expr.tailText_apparents rest]

theorem Expr.tailText_apparents : ∀ es : List Expr,
    Expr.tailText (Expr.apparents es) = Expr.tailText es
  | [] => rfl
  | e :: rest => by
    simp only [Expr.apparents, Expr.tailText, e.text_apparent, Expr.tailText_apparents rest]

end

/-- A sign in front of an expression; two equal signs are taken for a step. -/
def UnaryOp.joined : UnaryOp → Expr → Expr
  | .neg, .unary .neg e _ => .update .decrement true e {}
  | .plus, .unary .plus e _ => .update .increment true e {}
  | op, e => .unary op e {}

theorem UnaryOp.joined_of_unsigned (op : UnaryOp) {e : Expr} (unsigned : e.level ≠ 7) :
    op.joined e = .unary op e {} := by
  cases e with
  | unary => exact absurd rfl unsigned
  | _ => cases op <;> rfl

theorem UnaryOp.joined_of_apart {op : UnaryOp} {e : Expr} (apart : op.runsInto e = false) :
    op.joined e.bare = .unary op e.bare {} := by
  cases e with
  | unary inner e s => cases op <;> cases inner <;> first | rfl | cases apart
  | _ => cases op <;> rfl

theorem UpdateOp.joined_sign (op : UpdateOp) (e : Expr) :
    op.sign.joined (.unary op.sign e {}) = .update op true e {} := by
  cases op <;> rfl

mutual

def Expr.rejoined : Expr → Expr
  | .array items _ => .array (Expr.rejoineds items) {}
  | .unary op e _ => op.joined e.rejoined
  | .update op before e _ => .update op before e.rejoined {}
  | .binary l op r _ => .binary l.rejoined op r.rejoined {}
  | .assign op t v _ => .assign op t.rejoined v.rejoined {}
  | .conditional t c a _ => .conditional t.rejoined c.rejoined a.rejoined {}
  | .call f args _ => .call f.rejoined (Expr.rejoineds args) {}
  | .member o p _ => .member o.rejoined p {}
  | .index o i _ => .index o.rejoined i.rejoined {}
  | e => e

def Expr.rejoineds : List Expr → List Expr
  | [] => []
  | e :: rest => e.rejoined :: Expr.rejoineds rest

end

@[simp] theorem Expr.level_bare (e : Expr) : e.bare.level = e.level := by
  cases e <;> rfl

mutual

theorem Expr.rejoined_apparent : ∀ e : Expr, e.isDistinct = true → e.apparent.rejoined = e.bare
  | .number v _, distinct => by
    have finite : v.isInfinite = false := by simpa [Expr.isDistinct] using distinct
    simp [Expr.apparent, Expr.rejoined, Expr.bare, finite]
  | .str .., _ | .template .., _ | .bool .., _ | .null _, _ | .ident .., _ | .func .., _ => rfl
  | .array items _, distinct => by
    rw [Expr.apparent, Expr.rejoined, Expr.rejoineds_apparents items distinct, Expr.bare]
  | .unary op e _, distinct => by
    simp only [Expr.isDistinct, Bool.and_eq_true, Bool.not_eq_true'] at distinct
    rw [Expr.apparent, Expr.rejoined, e.rejoined_apparent distinct.2,
      UnaryOp.joined_of_apart distinct.1, Expr.bare]
  | .update op true e _, distinct => by
    have inner := e.rejoined_apparent distinct
    rw [Expr.apparent]
    split
    · rw [Expr.rejoined, inner, Expr.bare]
    · rename_i unsigned
      have first : op.sign.joined e.bare = .unary op.sign e.bare {} :=
        op.sign.joined_of_unsigned (by rwa [e.level_bare])
      rw [Expr.rejoined, Expr.rejoined, inner, first, op.joined_sign, Expr.bare]
  | .update op false e _, distinct => by
    rw [Expr.apparent, Expr.rejoined, e.rejoined_apparent distinct, Expr.bare]
  | .member o p _, distinct => by
    rw [Expr.apparent, Expr.rejoined, o.rejoined_apparent distinct, Expr.bare]
  | .binary l _ r _, distinct | .assign _ l r _, distinct | .index l r _, distinct => by
    simp only [Expr.isDistinct, Bool.and_eq_true] at distinct
    rw [Expr.apparent, Expr.rejoined, l.rejoined_apparent distinct.1,
      r.rejoined_apparent distinct.2, Expr.bare]
  | .conditional t c a _, distinct => by
    simp only [Expr.isDistinct, Bool.and_eq_true] at distinct
    rw [Expr.apparent, Expr.rejoined, t.rejoined_apparent distinct.1.1,
      c.rejoined_apparent distinct.1.2, a.rejoined_apparent distinct.2, Expr.bare]
  | .call f args _, distinct => by
    simp only [Expr.isDistinct, Bool.and_eq_true] at distinct
    rw [Expr.apparent, Expr.rejoined, f.rejoined_apparent distinct.1,
      Expr.rejoineds_apparents args distinct.2, Expr.bare]

theorem Expr.rejoineds_apparents : ∀ es : List Expr, Expr.areDistinct es = true →
    Expr.rejoineds (Expr.apparents es) = Expr.bares es
  | [], _ => rfl
  | e :: rest, distinct => by
    simp only [Expr.areDistinct, Bool.and_eq_true] at distinct
    rw [Expr.apparents, Expr.rejoineds, e.rejoined_apparent distinct.1,
      Expr.rejoineds_apparents rest distinct.2, Expr.bares]

end

theorem bare_eq_of_apparent_eq {a b : Expr} (distinctLeft : a.isDistinct = true)
    (distinctRight : b.isDistinct = true) (same : a.apparent = b.apparent) : a.bare = b.bare := by
  rw [← a.rejoined_apparent distinctLeft, same, b.rejoined_apparent distinctRight]

end SortTrace.Script
