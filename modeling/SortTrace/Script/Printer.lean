import SortTrace.Numeral.Shortest
import SortTrace.Text.Quoted
import SortTrace.Script.Tree

/-!
Printing expressions. The text depends on the tree alone and not on spans; an operand is put in
parentheses where its operator binds less tightly than its place asks. Function bodies are not
printed.
-/

namespace SortTrace.Script

namespace Expr

/-- How tightly an expression binds when printed. Operators take the levels from 1 to 6, signs
come next, and everything that needs no parentheses is at the top. -/
def level : Expr → Nat
  | assign .. | func .. | conditional .. => 0
  | binary _ op _ _ => op.precedence
  | unary .. => 7
  | update _ before _ _ => if before then 7 else 8
  | _ => 8

end Expr

def Func.header (f : Func) : String :=
  let params := "(" ++ ", ".intercalate f.params ++ ")"
  if f.isArrow then params ++ " => \x7b...\x7d"
  else "function " ++ f.name?.getD "" ++ params ++ " \x7b...\x7d"

def Expr.inPlace (least : Nat) (e : Expr) (text : String) : String :=
  if e.level < least then "(" ++ text ++ ")" else text

mutual

def Expr.text : Expr → String
  | .number v _ => v.text
  | .str v _ => Text.quote v
  | .template v _ => "\x60" ++ v ++ "\x60"
  | .bool v _ => if v then "true" else "false"
  | .null _ => "null"
  | .ident name _ => name
  | .array items _ => "[" ++ Expr.listText items ++ "]"
  | .unary op e _ => op.text ++ e.inPlace 7 e.text
  | .update op before e _ =>
    if before then op.text ++ e.inPlace 8 e.text else e.inPlace 8 e.text ++ op.text
  | .binary l op r _ =>
    l.inPlace op.precedence l.text ++ " " ++ op.text ++ " "
      ++ r.inPlace (op.precedence + 1) r.text
  | .assign op t v _ => t.text ++ " " ++ op.text ++ " " ++ v.text
  | .conditional t c a _ => t.inPlace 1 t.text ++ " ? " ++ c.text ++ " : " ++ a.text
  | .call f args _ => f.inPlace 8 f.text ++ "(" ++ Expr.listText args ++ ")"
  | .member o p _ => o.inPlace 8 o.text ++ "." ++ p
  | .index o i _ => o.inPlace 8 o.text ++ "[" ++ i.text ++ "]"
  | .func f _ => f.header

def Expr.listText : List Expr → String
  | [] => ""
  | e :: rest => e.text ++ Expr.tailText rest

def Expr.tailText : List Expr → String
  | [] => ""
  | e :: rest => ", " ++ e.text ++ Expr.tailText rest

end

end SortTrace.Script
