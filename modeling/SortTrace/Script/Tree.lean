import SortTrace.Numeral.Binary
import SortTrace.Script.Operator
import SortTrace.Script.Span

/-!
The tree of a script. Every node carries the span of the text it was read from. Parentheses leave
no node of their own: they only widen the span of what they enclose.
-/

namespace SortTrace.Script

open Numeral

mutual

inductive Expr where
  | number (value : Magnitude) (span : Span)
  | str (value : String) (span : Span)
  | template (value : String) (span : Span)
  | bool (value : Bool) (span : Span)
  | null (span : Span)
  | ident (name : String) (span : Span)
  | array (items : List Expr) (span : Span)
  | unary (op : UnaryOp) (operand : Expr) (span : Span)
  /-- `++x` and `--x` when `before` holds, `x++` and `x--` otherwise. -/
  | update (op : UpdateOp) (before : Bool) (target : Expr) (span : Span)
  | binary (lhs : Expr) (op : BinOp) (rhs : Expr) (span : Span)
  | assign (op : AssignOp) (target value : Expr) (span : Span)
  | conditional (test consequent alternate : Expr) (span : Span)
  | call (callee : Expr) (args : List Expr) (span : Span)
  | member (object : Expr) (property : String) (span : Span)
  | index (object index : Expr) (span : Span)
  | func (f : Func) (span : Span)

inductive Func where
  | block (name : Option String) (params : List String) (body : List Stmt) (span : Span)
  | arrowBlock (params : List String) (body : List Stmt) (span : Span)
  | arrowValue (params : List String) (value : Expr) (span : Span)

inductive Stmt where
  | varDecl (decl : VarDecl) (span : Span)
  | func (f : Func) (span : Span)
  | ifElse (test : Expr) (consequent : Stmt) (alternate : Option Stmt) (span : Span)
  | loop (l : Loop) (span : Span)
  | block (body : List Stmt) (span : Span)
  | ret (value : Option Expr) (span : Span)
  | brk (span : Span)
  | cont (span : Span)
  | empty (span : Span)
  | expr (e : Expr) (span : Span)

inductive VarDecl where
  | mk (kind : DeclKind) (declarators : List Declarator) (span : Span)

inductive Declarator where
  | mk (name : String) (init : Option Expr) (span : Span)

inductive Loop where
  | forLoop (init : ForInit) (test update : Option Expr) (body : Stmt) (span : Span)
  /-- Over the values of the iterable when `values` holds, over its keys otherwise. -/
  | forEach (decl : Option DeclKind) (binding : String) (iterable : Expr) (values : Bool)
      (body : Stmt) (span : Span)
  | whileLoop (test : Expr) (body : Stmt) (span : Span)
  | doWhile (body : Stmt) (test : Expr) (span : Span)

inductive ForInit where
  | none
  | varDecl (decl : VarDecl)
  | expr (e : Expr)

end

structure Program where
  body : List Stmt
  span : Span

namespace Expr

def span : Expr → Span
  | number _ s | str _ s | template _ s | bool _ s | null s | ident _ s | array _ s
  | unary _ _ s | update _ _ _ s | binary _ _ _ s | assign _ _ _ s | conditional _ _ _ s
  | call _ _ s | member _ _ s | index _ _ s | func _ s => s

def withSpan (s : Span) : Expr → Expr
  | number v _ => number v s
  | str v _ => str v s
  | template v _ => template v s
  | bool v _ => bool v s
  | null _ => null s
  | ident name _ => ident name s
  | array items _ => array items s
  | unary op e _ => unary op e s
  | update op before e _ => update op before e s
  | binary l op r _ => binary l op r s
  | assign op t v _ => assign op t v s
  | conditional t c a _ => conditional t c a s
  | call f args _ => call f args s
  | member o p _ => member o p s
  | index o i _ => index o i s
  | func f _ => func f s

def name? : Expr → Option String
  | ident name _ => some name
  | _ => none

def number? : Expr → Option Signed
  | number v _ => some ⟨false, v⟩
  | unary .neg (number v _) _ => some ⟨true, v⟩
  | unary .plus (number v _) _ => some ⟨false, v⟩
  | _ => none

def indexed? : Expr → Option (Expr × Expr)
  | index object i _ => some (object, i)
  | _ => none

def items? : Expr → Option (List Expr)
  | array items _ => some items
  | _ => none

end Expr

namespace Func

def span : Func → Span
  | block _ _ _ s | arrowBlock _ _ s | arrowValue _ _ s => s

def name? : Func → Option String
  | block name _ _ _ => name
  | _ => none

def params : Func → List String
  | block _ ps _ _ | arrowBlock ps _ _ | arrowValue ps _ _ => ps

def isArrow : Func → Bool
  | block .. => false
  | _ => true

end Func

namespace Stmt

def span : Stmt → Span
  | varDecl _ s | func _ s | ifElse _ _ _ s | loop _ s | block _ s | ret _ s | brk s | cont s
  | empty s | expr _ s => s

/-- The statements a body stands for: those of a block, or the statement alone. -/
def statements : Stmt → List Stmt
  | block body _ => body
  | s => [s]

end Stmt

namespace Declarator

def name : Declarator → String
  | mk name _ _ => name

def init : Declarator → Option Expr
  | mk _ init _ => init

def span : Declarator → Span
  | mk _ _ s => s

end Declarator

namespace VarDecl

def kind : VarDecl → DeclKind
  | mk kind _ _ => kind

def declarators : VarDecl → List Declarator
  | mk _ ds _ => ds

def span : VarDecl → Span
  | mk _ _ s => s

end VarDecl

namespace Loop

def span : Loop → Span
  | forLoop _ _ _ _ s | forEach _ _ _ _ _ s | whileLoop _ _ s | doWhile _ _ s => s

def body : Loop → Stmt
  | forLoop _ _ _ b _ | forEach _ _ _ _ b _ | whileLoop _ b _ | doWhile b _ _ => b

def test? : Loop → Option Expr
  | forLoop _ test _ _ _ => test
  | forEach .. => Option.none
  | whileLoop test _ _ | doWhile _ test _ => some test

end Loop

end SortTrace.Script
