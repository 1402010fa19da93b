namespace SortTrace.Script

inductive UnaryOp where
  | neg | plus | not | typeof
deriving DecidableEq

def UnaryOp.text : UnaryOp → String
  | neg => "-"
  | plus => "+"
  | not => "!"
  | typeof => "typeof "

inductive UpdateOp where
  | increment | decrement
deriving DecidableEq

def UpdateOp.text : UpdateOp → String
  | increment => "++"
  | decrement => "--"

inductive BinOp where
  | add | sub | mul | div | mod
  | eq | strictEq | notEq | strictNotEq
  | lt | gt | ltEq | gtEq
  | and | or
deriving DecidableEq

namespace BinOp

def text : BinOp → String
  | add => "+"
  | sub => "-"
  | mul => "*"
  | div => "/"
  | mod => "%"
  | eq => "=="
  | strictEq => "==="
  | notEq => "!="
  | strictNotEq => "!=="
  | lt => "<"
  | gt => ">"
  | ltEq => "<="
  | gtEq => ">="
  | and => "&&"
  | or => "||"

def isComparison : BinOp → Bool
  | eq | strictEq | notEq | strictNotEq | lt | gt | ltEq | gtEq => true
  | _ => false

/-- Higher levels bind tighter. -/
def precedence : BinOp → Nat
  | or => 1
  | and => 2
  | eq | strictEq | notEq | strictNotEq => 3
  | lt | gt | ltEq | gtEq => 4
  | add | sub => 5
  | mul | div | mod => 6

end BinOp

inductive AssignOp where
  | assign | add | sub | mul | div | mod
deriving DecidableEq

def AssignOp.text : AssignOp → String
  | assign => "="
  | add => "+="
  | sub => "-="
  | mul => "*="
  | div => "/="
  | mod => "%="

inductive DeclKind where
  | letKind | constKind | varKind
deriving DecidableEq

end SortTrace.Script
