import SortTrace.Script.Scan
import SortTrace.Script.Cursor
import SortTrace.Script.Printer

/-!
The grammar: tokens as trees. Each rule takes a cursor and gives a tree with the cursor behind it.
Rules call each other under an allowance that shrinks with every call; `allowance` is enough for
any list of tokens, because no chain of rules is longer than eight without passing a token.
-/

namespace SortTrace.Script

mutual

def Expr.isTarget : Expr → Bool
  | .ident .. | .member .. | .index .. => true
  | .array items _ => Expr.areTargets items
  | _ => false

def Expr.areTargets : List Expr → Bool
  | [] => true
  | e :: rest => e.isTarget && Expr.areTargets rest

end

def Mark.assignOp? : Mark → Option AssignOp
  | .eq => some .assign
  | .plusEq => some .add
  | .minusEq => some .sub
  | .starEq => some .mul
  | .slashEq => some .div
  | .percentEq => some .mod
  | _ => none

def Mark.binOp? : Mark → Option BinOp
  | .plus => some .add
  | .minus => some .sub
  | .star => some .mul
  | .slash => some .div
  | .percent => some .mod
  | .eqEq => some .eq
  | .eqEqEq => some .strictEq
  | .notEq => some .notEq
  | .notEqEq => some .strictNotEq
  | .lt => some .lt
  | .gt => some .gt
  | .ltEq => some .ltEq
  | .gtEq => some .gtEq
  | .ampAmp => some .and
  | .pipePipe => some .or
  | _ => none

def TokenKind.unaryOp? : TokenKind → Option UnaryOp
  | .mark .minus => some .neg
  | .mark .plus => some .plus
  | .mark .bang => some .not
  | .word .typeofWord => some .typeof
  | _ => none

def TokenKind.updateOp? : TokenKind → Option UpdateOp
  | .mark .plusPlus => some .increment
  | .mark .minusMinus => some .decrement
  | _ => none

def TokenKind.declKind? : TokenKind → Option DeclKind
  | .word .letWord => some .letKind
  | .word .constWord => some .constKind
  | .word .varWord => some .varKind
  | _ => none

namespace Cursor

def assignOp? (c : Cursor) : Option AssignOp :=
  match c.kind with
  | .mark m => m.assignOp?
  | _ => none

def binOp? (c : Cursor) : Option BinOp :=
  match c.kind with
  | .mark m => m.binOp?
  | _ => none

/-- The word between a loop variable and what it runs over: `of` for the values, `in` for the
keys. -/
def eachWord? (c : Cursor) : Option Bool :=
  match c.kind with
  | .ident name => if name = "of" then some true else none
  | .word .inWord => some false
  | _ => none

def atStmtEnd (c : Cursor) : Bool :=
  match c.kind with
  | .mark .semicolon | .mark .rbrace | .eof => true
  | _ => false

end Cursor

/-- With `depth` parentheses open: the one that closes them all is followed by an arrow. -/
def arrowBehindParens : (depth : Nat) → List Token → Bool
  | _, [] => false
  | depth, t :: rest =>
    match t.kind with
    | .mark .lparen => arrowBehindParens (depth + 1) rest
    | .mark .rparen =>
      if depth ≤ 1 then (Cursor.mk rest t.span).sees .fatArrow
      else arrowBehindParens (depth - 1) rest
    | .eof => false
    | _ => arrowBehindParens depth rest

/-- An arrow function starts here: a name or a parenthesised list, then an arrow. -/
def Cursor.atArrow (c : Cursor) : Bool :=
  match c.kind with
  | .ident _ => c.advance.sees .fatArrow
  | .mark .lparen => arrowBehindParens 0 c.rest
  | _ => false

namespace Grammar

/-- Names with commas between them, up to the closing parenthesis. The last may have one too. -/
def paramNames : Nat → Cursor → Except SyntaxError (List String × Cursor)
  | 0, c => c.fail .tooDeep
  | fuel + 1, c =>
    if c.sees .rparen then .ok ([], c)
    else do
      let (name, c) ← c.name
      if c.sees .comma then
        let (names, c) ← paramNames fuel c.advance
        return (name :: names, c)
      else return ([name], c)

def params (fuel : Nat) (c : Cursor) : Except SyntaxError (List String × Cursor) := do
  let c ← c.expect (.mark .lparen)
  let (names, c) ← paramNames fuel c
  let c ← c.expect (.mark .rparen)
  return (names, c)

mutual

def stmt : Nat → Cursor → Except SyntaxError (Stmt × Cursor)
  | 0, c => c.fail .tooDeep
  | fuel + 1, c =>
    let start := c.span
    match c.kind with
    | .word .letWord | .word .constWord | .word .varWord => do
      let (decl, c) ← varDecl fuel c
      let c := c.skip .semicolon
      return (.varDecl decl (start.cover c.last), c)
    | .word .functionWord => do
      let (f, c) ← func fuel true c
      return (.func f (start.cover c.last), c)
    | .word .ifWord => ifElse fuel c
    | .word .forWord => do
      let (l, c) ← forLoop fuel c
      return (.loop l (start.cover c.last), c)
    | .word .whileWord => do
      let (l, c) ← whileLoop fuel c
      return (.loop l (start.cover c.last), c)
    | .word .doWord => do
      let (l, c) ← doWhile fuel c
      return (.loop l (start.cover c.last), c)
    | .mark .lbrace => do
      let (body, c) ← block fuel c
      return (.block body (start.cover c.last), c)
    | .word .returnWord =>
      let c := c.advance
      if c.atStmtEnd then
        let c := c.skip .semicolon
        .ok (.ret none (start.cover c.last), c)
      else do
        let (value, c) ← assignment fuel c
        let c := c.skip .semicolon
        return (.ret (some value) (start.cover c.last), c)
    | .word .breakWord =>
      let c := c.advance.skip .semicolon
      .ok (.brk (start.cover c.last), c)
    | .word .continueWord =>
      let c := c.advance.skip .semicolon
      .ok (.cont (start.cover c.last), c)
    | .mark .semicolon =>
      let c := c.advance
      .ok (.empty (start.cover c.last), c)
    | _ => do
      let (e, c) ← assignment fuel c
      let c := c.skip .semicolon
      return (.expr e (start.cover c.last), c)

def stmts : Nat → Cursor → Except SyntaxError (List Stmt × Cursor)
  | 0, c => c.fail .tooDeep
  | fuel + 1, c =>
    if c.kind = .eof then .ok ([], c)
    else do
      let (first, c) ← stmt fuel c
      let (rest, c) ← stmts fuel c
      return (first :: rest, c)

def block : Nat → Cursor → Except SyntaxError (List Stmt × Cursor)
  | 0, c => c.fail .tooDeep
  | fuel + 1, c => do
    let c ← c.expect (.mark .lbrace)
    let (body, c) ← blockStmts fuel c
    return (body, c.advance)

def blockStmts : Nat → Cursor → Except SyntaxError (List Stmt × Cursor)
  | 0, c => c.fail .tooDeep
  | fuel + 1, c =>
    if c.sees .rbrace then .ok ([], c)
    else if c.kind = .eof then c.fail .unclosedBlock
    else do
      let (first, c) ← stmt fuel c
      let (rest, c) ← blockStmts fuel c
      return (first :: rest, c)

def varDecl : Nat → Cursor → Except SyntaxError (VarDecl × Cursor)
  | 0, c => c.fail .tooDeep
  | fuel + 1, c =>
    match c.kind.declKind? with
    | none => c.fail (.expectedDeclaration c.kind)
    | some kind => do
      let start := c.span
      let (name, c) ← c.advance.name
      varDeclFrom fuel kind start name c

def varDeclFrom : Nat → DeclKind → Span → String → Cursor →
    Except SyntaxError (VarDecl × Cursor)
  | 0, _, _, _, c => c.fail .tooDeep
  | fuel + 1, kind, start, name, c => do
    let (ds, c) ← declarators fuel name c
    return (.mk kind ds (start.cover c.last), c)

def declarators : Nat → String → Cursor → Except SyntaxError (List Declarator × Cursor)
  | 0, _, c => c.fail .tooDeep
  | fuel + 1, name, c => do
    let start := c.last
    let (init, c) ← initializer fuel c
    let first := Declarator.mk name init (start.cover c.last)
    if c.sees .comma then
      let (next, c) ← c.advance.name
      let (rest, c) ← declarators fuel next c
      return (first :: rest, c)
    else return ([first], c)

def initializer : Nat → Cursor → Except SyntaxError (Option Expr × Cursor)
  | 0, c => c.fail .tooDeep
  | fuel + 1, c =>
    if c.sees .eq then do
      let (e, c) ← assignment fuel c.advance
      return (some e, c)
    else .ok (none, c)

/-- A function with the word `function`. A declared one must have a name. -/
def func : Nat → (named : Bool) → Cursor → Except SyntaxError (Func × Cursor)
  | 0, _, c => c.fail .tooDeep
  | fuel + 1, named, c => do
    let start := c.span
    let c ← c.expect (.word .functionWord)
    match c.kind with
    | .ident name =>
      let (ps, c) ← params fuel c.advance
      let (body, c) ← block fuel c
      return (.block (some name) ps body (start.cover c.last), c)
    | _ =>
      if named then c.fail .expectedFunctionName
      else
        let (ps, c) ← params fuel c
        let (body, c) ← block fuel c
        return (.block none ps body (start.cover c.last), c)

def header : Nat → Cursor → Except SyntaxError (Expr × Cursor)
  | 0, c => c.fail .tooDeep
  | fuel + 1, c => do
    let c ← c.expect (.mark .lparen)
    let (e, c) ← assignment fuel c
    let c ← c.expect (.mark .rparen)
    return (e, c)

def ifElse : Nat → Cursor → Except SyntaxError (Stmt × Cursor)
  | 0, c => c.fail .tooDeep
  | fuel + 1, c => do
    let start := c.span
    let c ← c.expect (.word .ifWord)
    let (test, c) ← header fuel c
    let (consequent, c) ← stmt fuel c
    if c.kind = .word .elseWord then
      let (alternate, c) ← stmt fuel c.advance
      return (.ifElse test consequent (some alternate) (start.cover c.last), c)
    else return (.ifElse test consequent none (start.cover c.last), c)

def forLoop : Nat → Cursor → Except SyntaxError (Loop × Cursor)
  | 0, c => c.fail .tooDeep
  | fuel + 1, c => do
    let start := c.span
    let c ← c.expect (.word .forWord)
    let c ← c.expect (.mark .lparen)
    match c.kind with
    | .mark .semicolon => forHeader fuel start .none c
    | .word .letWord | .word .constWord | .word .varWord =>
      match c.kind.declKind? with
      | none => c.fail (.expectedDeclaration c.kind)
      | some kind =>
        let declStart := c.span
        let (name, c) ← c.advance.name
        match c.eachWord? with
        | some values => forEach fuel start (some kind) name values c.advance
        | none =>
          let (decl, c) ← varDeclFrom fuel kind declStart name c
          forHeader fuel start (.varDecl decl) c
    | .ident name =>
      match c.advance.eachWord? with
      | some values => forEach fuel start none name values c.advance.advance
      | none =>
        let (e, c) ← assignment fuel c
        forHeader fuel start (.expr e) c
    | _ =>
      let (e, c) ← assignment fuel c
      forHeader fuel start (.expr e) c

def forHeader : Nat → Span → ForInit → Cursor → Except SyntaxError (Loop × Cursor)
  | 0, _, _, c => c.fail .tooDeep
  | fuel + 1, start, init, c => do
    let c ← c.expect (.mark .semicolon)
    let (test, c) ← exprUnless fuel .semicolon c
    let c ← c.expect (.mark .semicolon)
    let (update, c) ← exprUnless fuel .rparen c
    let c ← c.expect (.mark .rparen)
    let (body, c) ← stmt fuel c
    return (.forLoop init test update body (start.cover c.last), c)

def exprUnless : Nat → Mark → Cursor → Except SyntaxError (Option Expr × Cursor)
  | 0, _, c => c.fail .tooDeep
  | fuel + 1, m, c =>
    if c.sees m then .ok (none, c)
    else do
      let (e, c) ← assignment fuel c
      return (some e, c)

def forEach : Nat → Span → Option DeclKind → String → Bool → Cursor →
    Except SyntaxError (Loop × Cursor)
  | 0, _, _, _, _, c => c.fail .tooDeep
  | fuel + 1, start, decl, binding, values, c => do
    let (iterable, c) ← assignment fuel c
    let c ← c.expect (.mark .rparen)
    let (body, c) ← stmt fuel c
    return (.forEach decl binding iterable values body (start.cover c.last), c)

def whileLoop : Nat → Cursor → Except SyntaxError (Loop × Cursor)
  | 0, c => c.fail .tooDeep
  | fuel + 1, c => do
    let start := c.span
    let c ← c.expect (.word .whileWord)
    let (test, c) ← header fuel c
    let (body, c) ← stmt fuel c
    return (.whileLoop test body (start.cover c.last), c)

/-- The semicolon behind the condition belongs to the loop. -/
def doWhile : Nat → Cursor → Except SyntaxError (Loop × Cursor)
  | 0, c => c.fail .tooDeep
  | fuel + 1, c => do
    let start := c.span
    let c ← c.expect (.word .doWord)
    let (body, c) ← stmt fuel c
    let c ← c.expect (.word .whileWord)
    let (test, c) ← header fuel c
    let c := c.skip .semicolon
    return (.doWhile body test (start.cover c.last), c)

/-- Any expression. Assignment groups to the right and binds loosest. -/
def assignment : Nat → Cursor → Except SyntaxError (Expr × Cursor)
  | 0, c => c.fail .tooDeep
  | fuel + 1, c =>
    if c.atArrow then arrow fuel c
    else do
      let (target, c) ← conditional fuel c
      match c.assignOp? with
      | none => return (target, c)
      | some op =>
        if target.isTarget then
          let (value, c) ← assignment fuel c.advance
          return (.assign op target value (target.span.cover value.span), c)
        else c.fail (.invalidTarget target.text)

def conditional : Nat → Cursor → Except SyntaxError (Expr × Cursor)
  | 0, c => c.fail .tooDeep
  | fuel + 1, c => do
    let (test, c) ← binary fuel 1 c
    if c.sees .question then
      let (consequent, c) ← assignment fuel c.advance
      let c ← c.expect (.mark .colon)
      let (alternate, c) ← assignment fuel c
      return (.conditional test consequent alternate (test.span.cover alternate.span), c)
    else return (test, c)

def binary : Nat → (least : Nat) → Cursor → Except SyntaxError (Expr × Cursor)
  | 0, _, c => c.fail .tooDeep
  | fuel + 1, least, c => do
    let (lhs, c) ← unary fuel c
    binaryTail fuel least lhs c

/-- Further operands behind the first. Equal operators group to the left, so the right operand of
one takes only tighter ones. -/
def binaryTail : Nat → (least : Nat) → Expr → Cursor → Except SyntaxError (Expr × Cursor)
  | 0, _, _, c => c.fail .tooDeep
  | fuel + 1, least, lhs, c =>
    match c.binOp? with
    | none => .ok (lhs, c)
    | some op =>
      if op.precedence < least then .ok (lhs, c)
      else do
        let (rhs, c) ← binary fuel (op.precedence + 1) c.advance
        binaryTail fuel least (.binary lhs op rhs (lhs.span.cover rhs.span)) c

def unary : Nat → Cursor → Except SyntaxError (Expr × Cursor)
  | 0, c => c.fail .tooDeep
  | fuel + 1, c =>
    let start := c.span
    match c.kind.unaryOp?, c.kind.updateOp? with
    | some op, _ => do
      let (operand, c) ← unary fuel c.advance
      return (.unary op operand (start.cover operand.span), c)
    | none, some op => do
      let (target, c) ← unary fuel c.advance
      return (.update op true target (start.cover target.span), c)
    | none, none => do
      let (e, c) ← primary fuel c
      postfixTail fuel e c

def postfixTail : Nat → Expr → Cursor → Except SyntaxError (Expr × Cursor)
  | 0, _, c => c.fail .tooDeep
  | fuel + 1, e, c =>
    match c.kind with
    | .mark .lparen => do
      let (args, c) ← items fuel .rparen c.advance
      postfixTail fuel (.call e args (e.span.cover c.last)) c
    | .mark .dot => do
      let (name, c) ← c.advance.property
      postfixTail fuel (.member e name (e.span.cover c.last)) c
    | .mark .lbracket => do
      let (i, c) ← assignment fuel c.advance
      let c ← c.expect (.mark .rbracket)
      postfixTail fuel (.index e i (e.span.cover c.last)) c
    | .mark .plusPlus =>
      let c := c.advance
      postfixTail fuel (.update .increment false e (e.span.cover c.last)) c
    | .mark .minusMinus =>
      let c := c.advance
      postfixTail fuel (.update .decrement false e (e.span.cover c.last)) c
    | _ => .ok (e, c)

def primary : Nat → Cursor → Except SyntaxError (Expr × Cursor)
  | 0, c => c.fail .tooDeep
  | fuel + 1, c =>
    let start := c.span
    match c.kind with
    | .number v => .ok (.number v (start.cover c.advance.last), c.advance)
    | .str v => .ok (.str v (start.cover c.advance.last), c.advance)
    | .template v => .ok (.template v (start.cover c.advance.last), c.advance)
    | .word .trueWord => .ok (.bool true (start.cover c.advance.last), c.advance)
    | .word .falseWord => .ok (.bool false (start.cover c.advance.last), c.advance)
    | .word .nullWord => .ok (.null (start.cover c.advance.last), c.advance)
    | .ident name => .ok (.ident name (start.cover c.advance.last), c.advance)
    | .mark .lbracket => do
      let (es, c) ← items fuel .rbracket c.advance
      return (.array es (start.cover c.last), c)
    | .mark .lparen => do
      let (e, c) ← assignment fuel c.advance
      let c ← c.expect (.mark .rparen)
      return (e.withSpan (start.cover c.last), c)
    | .word .functionWord => do
      let (f, c) ← func fuel false c
      return (.func f (start.cover c.last), c)
    | found => c.fail (.expectedExpression found)

/-- Expressions with commas between them and the mark that closes them. The last may have a comma
too. -/
def items : Nat → (close : Mark) → Cursor → Except SyntaxError (List Expr × Cursor)
  | 0, _, c => c.fail .tooDeep
  | fuel + 1, close, c =>
    if c.sees close then .ok ([], c.advance)
    else do
      let (first, c) ← assignment fuel c
      if c.sees .comma then
        let (rest, c) ← items fuel close c.advance
        return (first :: rest, c)
      else
        let c ← c.expect (.mark close)
        return ([first], c)

def arrow : Nat → Cursor → Except SyntaxError (Expr × Cursor)
  | 0, c => c.fail .tooDeep
  | fuel + 1, c => do
    let start := c.span
    let (ps, c) ← arrowParams fuel c
    let c ← c.expect (.mark .fatArrow)
    if c.sees .lbrace then
      let (body, c) ← block fuel c
      let span := start.cover c.last
      return (.func (.arrowBlock ps body span) span, c)
    else
      let (value, c) ← assignment fuel c
      let span := start.cover c.last
      return (.func (.arrowValue ps value span) span, c)

def arrowParams : Nat → Cursor → Except SyntaxError (List String × Cursor)
  | 0, c => c.fail .tooDeep
  | fuel + 1, c =>
    if c.sees .lparen then params fuel c
    else do
      let (name, c) ← c.name
      return ([name], c)

end

/-- Enough for every chain of rules over a list of tokens. -/
def allowance (tokens : List Token) : Nat := 16 * (tokens.length + 1)

end Grammar

def Program.ofTokens (tokens : List Token) : Except SyntaxError Program :=
  let start : Cursor := ⟨tokens, {}⟩
  match Grammar.stmts (Grammar.allowance tokens) start with
  | .ok (body, c) => .ok ⟨body, start.span.cover c.span⟩
  | .error e => .error e

/-- The expression at the front of a list of tokens; what follows it is left alone. -/
def Expr.ofTokens (tokens : List Token) : Except SyntaxError Expr :=
  (Grammar.assignment (Grammar.allowance tokens) ⟨tokens, {}⟩).map Prod.fst

def Program.ofText (text : String) : Except SyntaxError Program :=
  (scan text).bind Program.ofTokens

end SortTrace.Script
