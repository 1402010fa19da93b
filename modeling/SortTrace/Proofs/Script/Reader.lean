import SortTrace.Script.Grammar

/-!
Readers: ways of reading tokens one after the other that may break, and the rules of the grammar over
any of them. What is next can always be looked at; passing it, and looking back, may break.
-/

namespace SortTrace.Script

/-- A way of reading tokens, from places of type `κ`, that breaks with an `ε`. -/
structure Reader (κ ε : Type) where
  kind : κ → TokenKind
  span : κ → Span
  secondKind : κ → TokenKind
  last : κ → Except ε Span
  /-- Passes the next token, unless it is `eof`. -/
  advance : κ → Except ε κ
  atArrow : κ → Except ε Bool
  /-- A fault in what is read, which is not a break of the reader. -/
  fault : SyntaxError → ε

def TokenKind.eachWord? : TokenKind → Option Bool
  | .ident name => if name = "of" then some true else none
  | .word .inWord => some false
  | _ => none

def TokenKind.endsStmt : TokenKind → Bool
  | .mark .semicolon | .mark .rbrace | .eof => true
  | _ => false

def TokenKind.assignOp? : TokenKind → Option AssignOp
  | .mark m => m.assignOp?
  | _ => none

def TokenKind.binOp? : TokenKind → Option BinOp
  | .mark m => m.binOp?
  | _ => none

namespace Reader

variable {κ ε : Type} (r : Reader κ ε)

def sees (x : κ) (m : Mark) : Bool := r.kind x = .mark m

def fail {α : Type} (x : κ) (fault : ParseFault) : Except ε α :=
  .error (r.fault (.parse fault (r.span x)))

def skip (x : κ) (m : Mark) : Except ε κ := if r.sees x m then r.advance x else .ok x

def expect (x : κ) (wanted : TokenKind) : Except ε κ :=
  if r.kind x = wanted then r.advance x else r.fail x (.expectedToken wanted (r.kind x))

def name (x : κ) : Except ε (String × κ) :=
  match r.kind x with
  | .ident name => do
    let x ← r.advance x
    return (name, x)
  | found => r.fail x (.expectedIdentifier found)

def property (x : κ) : Except ε (String × κ) :=
  match r.kind x with
  | .ident name => do
    let x ← r.advance x
    return (name, x)
  | .word w => do
    let x ← r.advance x
    return (w.text, x)
  | found => r.fail x (.expectedProperty found)

def spanFrom (start : Span) (x : κ) : Except ε Span := do
  let last ← r.last x
  return start.cover last

def paramNames : Nat → κ → Except ε (List String × κ)
  | 0, x => r.fail x .tooDeep
  | fuel + 1, x =>
    if r.sees x .rparen then .ok ([], x)
    else do
      let (name, x) ← r.name x
      if r.sees x .comma then
        let x ← r.advance x
        let (names, x) ← paramNames fuel x
        return (name :: names, x)
      else return ([name], x)

def params (fuel : Nat) (x : κ) : Except ε (List String × κ) := do
  let x ← r.expect x (.mark .lparen)
  let (names, x) ← r.paramNames fuel x
  let x ← r.expect x (.mark .rparen)
  return (names, x)

def arrowParams (fuel : Nat) (x : κ) : Except ε (List String × κ) :=
  if r.sees x .lparen then r.params fuel x
  else do
    let (name, x) ← r.name x
    return ([name], x)

mutual

def stmt : Nat → κ → Except ε (Stmt × κ)
  | 0, x => r.fail x .tooDeep
  | fuel + 1, x =>
    let start := r.span x
    match r.kind x with
    | .word .letWord | .word .constWord | .word .varWord => do
      let (decl, x) ← varDecl fuel x
      let x ← r.skip x .semicolon
      return (.varDecl decl (← r.spanFrom start x), x)
    | .word .functionWord => do
      let (f, x) ← func fuel true x
      return (.func f (← r.spanFrom start x), x)
    | .word .ifWord => ifElse fuel x
    | .word .forWord => do
      let (l, x) ← forLoop fuel x
      return (.loop l (← r.spanFrom start x), x)
    | .word .whileWord => do
      let (l, x) ← whileLoop fuel x
      return (.loop l (← r.spanFrom start x), x)
    | .word .doWord => do
      let (l, x) ← doWhile fuel x
      return (.loop l (← r.spanFrom start x), x)
    | .mark .lbrace => do
      let (body, x) ← block fuel x
      return (.block body (← r.spanFrom start x), x)
    | .word .returnWord => do
      let x ← r.advance x
      if (r.kind x).endsStmt then
        let x ← r.skip x .semicolon
        return (.ret none (← r.spanFrom start x), x)
      else
        let (value, x) ← assignment fuel x
        let x ← r.skip x .semicolon
        return (.ret (some value) (← r.spanFrom start x), x)
    | .word .breakWord => do
      let x ← r.advance x
      let x ← r.skip x .semicolon
      return (.brk (← r.spanFrom start x), x)
    | .word .continueWord => do
      let x ← r.advance x
      let x ← r.skip x .semicolon
      return (.cont (← r.spanFrom start x), x)
    | .mark .semicolon => do
      let x ← r.advance x
      return (.empty (← r.spanFrom start x), x)
    | _ => do
      let (e, x) ← assignment fuel x
      let x ← r.skip x .semicolon
      return (.expr e (← r.spanFrom start x), x)

def stmts : Nat → κ → Except ε (List Stmt × κ)
  | 0, x => r.fail x .tooDeep
  | fuel + 1, x =>
    if r.kind x = .eof then .ok ([], x)
    else do
      let (first, x) ← stmt fuel x
      let (rest, x) ← stmts fuel x
      return (first :: rest, x)

def block : Nat → κ → Except ε (List Stmt × κ)
  | 0, x => r.fail x .tooDeep
  | fuel + 1, x => do
    let x ← r.expect x (.mark .lbrace)
    blockStmts fuel x

def blockStmts : Nat → κ → Except ε (List Stmt × κ)
  | 0, x => r.fail x .tooDeep
  | fuel + 1, x =>
    if r.sees x .rbrace then do
      let x ← r.advance x
      return ([], x)
    else if r.kind x = .eof then r.fail x .unclosedBlock
    else do
      let (first, x) ← stmt fuel x
      let (rest, x) ← blockStmts fuel x
      return (first :: rest, x)

def varDecl : Nat → κ → Except ε (VarDecl × κ)
  | 0, x => r.fail x .tooDeep
  | fuel + 1, x =>
    match (r.kind x).declKind? with
    | none => r.fail x (.expectedDeclaration (r.kind x))
    | some kind => do
      let start := r.span x
      let x ← r.advance x
      let (name, x) ← r.name x
      varDeclFrom fuel kind start name x

def varDeclFrom : Nat → DeclKind → Span → String → κ → Except ε (VarDecl × κ)
  | 0, _, _, _, x => r.fail x .tooDeep
  | fuel + 1, kind, start, name, x => do
    let (ds, x) ← declarators fuel name x
    return (.mk kind ds (← r.spanFrom start x), x)

def declarators : Nat → String → κ → Except ε (List Declarator × κ)
  | 0, _, x => r.fail x .tooDeep
  | fuel + 1, name, x => do
    let start ← r.last x
    let (init, x) ← initializer fuel x
    let first := Declarator.mk name init (← r.spanFrom start x)
    if r.sees x .comma then
      let x ← r.advance x
      let (next, x) ← r.name x
      let (rest, x) ← declarators fuel next x
      return (first :: rest, x)
    else return ([first], x)

def initializer : Nat → κ → Except ε (Option Expr × κ)
  | 0, x => r.fail x .tooDeep
  | fuel + 1, x =>
    if r.sees x .eq then do
      let x ← r.advance x
      let (e, x) ← assignment fuel x
      return (some e, x)
    else .ok (none, x)

def func : Nat → (named : Bool) → κ → Except ε (Func × κ)
  | 0, _, x => r.fail x .tooDeep
  | fuel + 1, named, x => do
    let start := r.span x
    let x ← r.expect x (.word .functionWord)
    match r.kind x with
    | .ident name =>
      let x ← r.advance x
      let (ps, x) ← r.params fuel x
      let (body, x) ← block fuel x
      return (.block (some name) ps body (← r.spanFrom start x), x)
    | _ =>
      if named then r.fail x .expectedFunctionName
      else
        let (ps, x) ← r.params fuel x
        let (body, x) ← block fuel x
        return (.block none ps body (← r.spanFrom start x), x)

def header : Nat → κ → Except ε (Expr × κ)
  | 0, x => r.fail x .tooDeep
  | fuel + 1, x => do
    let x ← r.expect x (.mark .lparen)
    let (e, x) ← assignment fuel x
    let x ← r.expect x (.mark .rparen)
    return (e, x)

def ifElse : Nat → κ → Except ε (Stmt × κ)
  | 0, x => r.fail x .tooDeep
  | fuel + 1, x => do
    let start := r.span x
    let x ← r.expect x (.word .ifWord)
    let (test, x) ← header fuel x
    let (consequent, x) ← stmt fuel x
    if r.kind x = .word .elseWord then
      let x ← r.advance x
      let (alternate, x) ← stmt fuel x
      return (.ifElse test consequent (some alternate) (← r.spanFrom start x), x)
    else return (.ifElse test consequent none (← r.spanFrom start x), x)

def forLoop : Nat → κ → Except ε (Loop × κ)
  | 0, x => r.fail x .tooDeep
  | fuel + 1, x => do
    let start := r.span x
    let x ← r.expect x (.word .forWord)
    let x ← r.expect x (.mark .lparen)
    match r.kind x with
    | .mark .semicolon => forHeader fuel start .none x
    | .word .letWord | .word .constWord | .word .varWord =>
      match (r.kind x).declKind? with
      | none => r.fail x (.expectedDeclaration (r.kind x))
      | some kind =>
        let declStart := r.span x
        let x ← r.advance x
        let (name, x) ← r.name x
        match (r.kind x).eachWord? with
        | some values =>
          let x ← r.advance x
          forEach fuel start (some kind) name values x
        | none =>
          let (decl, x) ← varDeclFrom fuel kind declStart name x
          forHeader fuel start (.varDecl decl) x
    | .ident name =>
      match (r.secondKind x).eachWord? with
      | some values =>
        let x ← r.advance x
        let x ← r.advance x
        forEach fuel start none name values x
      | none =>
        let (e, x) ← assignment fuel x
        forHeader fuel start (.expr e) x
    | _ =>
      let (e, x) ← assignment fuel x
      forHeader fuel start (.expr e) x

def forHeader : Nat → Span → ForInit → κ → Except ε (Loop × κ)
  | 0, _, _, x => r.fail x .tooDeep
  | fuel + 1, start, init, x => do
    let x ← r.expect x (.mark .semicolon)
    let (test, x) ← exprUnless fuel .semicolon x
    let x ← r.expect x (.mark .semicolon)
    let (update, x) ← exprUnless fuel .rparen x
    let x ← r.expect x (.mark .rparen)
    let (body, x) ← stmt fuel x
    return (.forLoop init test update body (← r.spanFrom start x), x)

def exprUnless : Nat → Mark → κ → Except ε (Option Expr × κ)
  | 0, _, x => r.fail x .tooDeep
  | fuel + 1, m, x =>
    if r.sees x m then .ok (none, x)
    else do
      let (e, x) ← assignment fuel x
      return (some e, x)

def forEach : Nat → Span → Option DeclKind → String → Bool → κ → Except ε (Loop × κ)
  | 0, _, _, _, _, x => r.fail x .tooDeep
  | fuel + 1, start, decl, binding, values, x => do
    let (iterable, x) ← assignment fuel x
    let x ← r.expect x (.mark .rparen)
    let (body, x) ← stmt fuel x
    return (.forEach decl binding iterable values body (← r.spanFrom start x), x)

def whileLoop : Nat → κ → Except ε (Loop × κ)
  | 0, x => r.fail x .tooDeep
  | fuel + 1, x => do
    let start := r.span x
    let x ← r.expect x (.word .whileWord)
    let (test, x) ← header fuel x
    let (body, x) ← stmt fuel x
    return (.whileLoop test body (← r.spanFrom start x), x)

def doWhile : Nat → κ → Except ε (Loop × κ)
  | 0, x => r.fail x .tooDeep
  | fuel + 1, x => do
    let start := r.span x
    let x ← r.expect x (.word .doWord)
    let (body, x) ← stmt fuel x
    let x ← r.expect x (.word .whileWord)
    let (test, x) ← header fuel x
    let x ← r.skip x .semicolon
    return (.doWhile body test (← r.spanFrom start x), x)

def assignment : Nat → κ → Except ε (Expr × κ)
  | 0, x => r.fail x .tooDeep
  | fuel + 1, x => do
    if ← r.atArrow x then arrow fuel x
    else
      let (target, x) ← conditional fuel x
      match (r.kind x).assignOp? with
      | none => return (target, x)
      | some op =>
        if target.isTarget then
          let x ← r.advance x
          let (value, x) ← assignment fuel x
          return (.assign op target value (target.span.cover value.span), x)
        else r.fail x (.invalidTarget target.text)

def conditional : Nat → κ → Except ε (Expr × κ)
  | 0, x => r.fail x .tooDeep
  | fuel + 1, x => do
    let (test, x) ← binary fuel 1 x
    if r.sees x .question then
      let x ← r.advance x
      let (consequent, x) ← assignment fuel x
      let x ← r.expect x (.mark .colon)
      let (alternate, x) ← assignment fuel x
      return (.conditional test consequent alternate (test.span.cover alternate.span), x)
    else return (test, x)

def binary : Nat → (least : Nat) → κ → Except ε (Expr × κ)
  | 0, _, x => r.fail x .tooDeep
  | fuel + 1, least, x => do
    let (lhs, x) ← unary fuel x
    binaryTail fuel least lhs x

def binaryTail : Nat → (least : Nat) → Expr → κ → Except ε (Expr × κ)
  | 0, _, _, x => r.fail x .tooDeep
  | fuel + 1, least, lhs, x =>
    match (r.kind x).binOp? with
    | none => .ok (lhs, x)
    | some op =>
      if op.precedence < least then .ok (lhs, x)
      else do
        let x ← r.advance x
        let (rhs, x) ← binary fuel (op.precedence + 1) x
        binaryTail fuel least (.binary lhs op rhs (lhs.span.cover rhs.span)) x

def unary : Nat → κ → Except ε (Expr × κ)
  | 0, x => r.fail x .tooDeep
  | fuel + 1, x =>
    let start := r.span x
    match (r.kind x).unaryOp?, (r.kind x).updateOp? with
    | some op, _ => do
      let x ← r.advance x
      let (operand, x) ← unary fuel x
      return (.unary op operand (start.cover operand.span), x)
    | none, some op => do
      let x ← r.advance x
      let (target, x) ← unary fuel x
      return (.update op true target (start.cover target.span), x)
    | none, none => do
      let (e, x) ← primary fuel x
      postfixTail fuel e x

def postfixTail : Nat → Expr → κ → Except ε (Expr × κ)
  | 0, _, x => r.fail x .tooDeep
  | fuel + 1, e, x =>
    match r.kind x with
    | .mark .lparen => do
      let x ← r.advance x
      let (args, x) ← items fuel .rparen x
      postfixTail fuel (.call e args (← r.spanFrom e.span x)) x
    | .mark .dot => do
      let x ← r.advance x
      let (name, x) ← r.property x
      postfixTail fuel (.member e name (← r.spanFrom e.span x)) x
    | .mark .lbracket => do
      let x ← r.advance x
      let (i, x) ← assignment fuel x
      let x ← r.expect x (.mark .rbracket)
      postfixTail fuel (.index e i (← r.spanFrom e.span x)) x
    | .mark .plusPlus => do
      let x ← r.advance x
      postfixTail fuel (.update .increment false e (← r.spanFrom e.span x)) x
    | .mark .minusMinus => do
      let x ← r.advance x
      postfixTail fuel (.update .decrement false e (← r.spanFrom e.span x)) x
    | _ => .ok (e, x)

def primary : Nat → κ → Except ε (Expr × κ)
  | 0, x => r.fail x .tooDeep
  | fuel + 1, x =>
    let start := r.span x
    let single (e : Span → Expr) : Except ε (Expr × κ) := do
      let x ← r.advance x
      return (e (← r.spanFrom start x), x)
    match r.kind x with
    | .number v => single (.number v)
    | .str v => single (.str v)
    | .template v => single (.template v)
    | .word .trueWord => single (.bool true)
    | .word .falseWord => single (.bool false)
    | .word .nullWord => single .null
    | .ident name => single (.ident name)
    | .mark .lbracket => do
      let x ← r.advance x
      let (es, x) ← items fuel .rbracket x
      return (.array es (← r.spanFrom start x), x)
    | .mark .lparen => do
      let x ← r.advance x
      let (e, x) ← assignment fuel x
      let x ← r.expect x (.mark .rparen)
      return (e.withSpan (← r.spanFrom start x), x)
    | .word .functionWord => do
      let (f, x) ← func fuel false x
      return (.func f (← r.spanFrom start x), x)
    | found => r.fail x (.expectedExpression found)

def items : Nat → (close : Mark) → κ → Except ε (List Expr × κ)
  | 0, _, x => r.fail x .tooDeep
  | fuel + 1, close, x =>
    if r.sees x close then do
      let x ← r.advance x
      return ([], x)
    else do
      let (first, x) ← assignment fuel x
      if r.sees x .comma then
        let x ← r.advance x
        let (rest, x) ← items fuel close x
        return (first :: rest, x)
      else
        let x ← r.expect x (.mark close)
        return ([first], x)

def arrow : Nat → κ → Except ε (Expr × κ)
  | 0, x => r.fail x .tooDeep
  | fuel + 1, x => do
    let start := r.span x
    let (ps, x) ← r.arrowParams fuel x
    let x ← r.expect x (.mark .fatArrow)
    if r.sees x .lbrace then
      let (body, x) ← block fuel x
      let span ← r.spanFrom start x
      return (.func (.arrowBlock ps body span) span, x)
    else
      let (value, x) ← assignment fuel x
      let span ← r.spanFrom start x
      return (.func (.arrowValue ps value span) span, x)

end

end Reader

end SortTrace.Script
