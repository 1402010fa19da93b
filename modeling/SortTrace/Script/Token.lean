import SortTrace.Numeral.Shortest
import SortTrace.Script.Span

/-!
Tokens of the script language: literals, names, reserved words and marks, each with the text that
messages show.
-/

namespace SortTrace.Script

open Numeral

inductive Keyword where
  | letWord | constWord | varWord | functionWord | returnWord | ifWord | elseWord | forWord
  | whileWord | doWord | breakWord | continueWord | inWord | typeofWord | trueWord | falseWord
  | nullWord
deriving DecidableEq

namespace Keyword

def all : List Keyword :=
  [letWord, constWord, varWord, functionWord, returnWord, ifWord, elseWord, forWord, whileWord,
   doWord, breakWord, continueWord, inWord, typeofWord, trueWord, falseWord, nullWord]

def text : Keyword → String
  | letWord => "let"
  | constWord => "const"
  | varWord => "var"
  | functionWord => "function"
  | returnWord => "return"
  | ifWord => "if"
  | elseWord => "else"
  | forWord => "for"
  | whileWord => "while"
  | doWord => "do"
  | breakWord => "break"
  | continueWord => "continue"
  | inWord => "in"
  | typeofWord => "typeof"
  | trueWord => "true"
  | falseWord => "false"
  | nullWord => "null"

def ofText? (s : String) : Option Keyword := all.find? (·.text == s)

theorem ofText?_text (w : Keyword) : ofText? w.text = some w := by cases w <;> decide

end Keyword

inductive Mark where
  | lparen | rparen | lbrace | rbrace | lbracket | rbracket
  | comma | colon | semicolon | dot | question | fatArrow
  | eq | eqEq | eqEqEq | notEq | notEqEq | lt | gt | ltEq | gtEq
  | plus | minus | star | slash | percent | plusPlus | minusMinus
  | plusEq | minusEq | starEq | slashEq | percentEq | ampAmp | pipePipe | bang
deriving DecidableEq

namespace Mark

def text : Mark → String
  | lparen => "("
  | rparen => ")"
  | lbrace => "\x7b"
  | rbrace => "\x7d"
  | lbracket => "["
  | rbracket => "]"
  | comma => ","
  | colon => ":"
  | semicolon => ";"
  | dot => "."
  | question => "?"
  | fatArrow => "=>"
  | eq => "="
  | eqEq => "=="
  | eqEqEq => "==="
  | notEq => "!="
  | notEqEq => "!=="
  | lt => "<"
  | gt => ">"
  | ltEq => "<="
  | gtEq => ">="
  | plus => "+"
  | minus => "-"
  | star => "*"
  | slash => "/"
  | percent => "%"
  | plusPlus => "++"
  | minusMinus => "--"
  | plusEq => "+="
  | minusEq => "-="
  | starEq => "*="
  | slashEq => "/="
  | percentEq => "%="
  | ampAmp => "&&"
  | pipePipe => "||"
  | bang => "!"

end Mark

inductive TokenKind where
  | number (value : Magnitude)
  | str (value : String)
  /-- A text between grave accents. Placeholders in it are plain text. -/
  | template (value : String)
  | ident (name : String)
  | word (w : Keyword)
  | mark (m : Mark)
  | eof
deriving DecidableEq

/-- How messages show a token. Texts are shown as they are, without escapes. -/
def TokenKind.text : TokenKind → String
  | number value => value.text
  | str value => "\x22" ++ value ++ "\x22"
  | template value => "\x60" ++ value ++ "\x60"
  | ident name => name
  | word w => w.text
  | mark m => m.text
  | eof => "<EOF>"

structure Token where
  kind : TokenKind
  span : Span
deriving DecidableEq

end SortTrace.Script
