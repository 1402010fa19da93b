import SortTrace.Text.Blank
import SortTrace.Script.Error

/-!
Scanning: a script text as a list of tokens. What the front of a text is read as depends on the
characters alone; positions are counted beside it, one character at a time.
-/

namespace SortTrace.Script

open Numeral Text

/-- What the front of a text is read as. `more` counts its characters behind the first one. -/
inductive Lexeme where
  | gap (more : Nat)
  | token (kind : TokenKind) (more : Nat)
  /-- No token; the faulty part reaches over `more` further characters. -/
  | fault (why : ScanFault) (more : Nat)

/-- The character behind a backslash in a string. All but four stand for themselves. -/
def unescape : Char → Char
  | 'n' => '\n'
  | 't' => '\t'
  | 'r' => '\r'
  | '0' => '\x00'
  | c => c

/-- The content of a text up to its closing quote and the number of characters read, or a fault and
the number of characters before it. -/
abbrev Content := Except (ScanFault × Nat) (List Char × Nat)

def Content.cons (c : Char) (width : Nat) : Content → Content
  | .ok (value, n) => .ok (c :: value, n + width)
  | .error (why, n) => .error (why, n + width)

/-- Reads a string up to `quote`. A string ends on the line it starts on, but a backslash may stand
before a newline. -/
def stringContent (quote : Char) : List Char → Content
  | [] => .error (.unterminatedString, 0)
  | '\\' :: [] => .error (.unterminatedEscape, 1)
  | '\\' :: c :: rest => (stringContent quote rest).cons (unescape c) 2
  | c :: rest =>
    if c = '\n' then .error (.unterminatedString, 0)
    else if c = quote then .ok ([], 1)
    else (stringContent quote rest).cons c 1

/-- Reads a template up to the closing grave accent. A character behind a backslash stands for
itself. -/
def templateContent : List Char → Content
  | [] => .error (.unterminatedTemplate, 0)
  | '\\' :: [] => .error (.unterminatedTemplate, 1)
  | '\\' :: c :: rest => (templateContent rest).cons c 2
  | c :: rest =>
    if c = '\x60' then .ok ([], 1)
    else (templateContent rest).cons c 1

/-- The characters of a block comment behind its opening, or how many there are without an end. -/
def blockCommentLength : List Char → Except Nat Nat
  | [] => .error 0
  | '*' :: '/' :: _ => .ok 2
  | _ :: rest => match blockCommentLength rest with
    | .ok n => .ok (n + 1)
    | .error n => .error (n + 1)

def exponentLength : List Char → Nat
  | mark :: rest =>
    if mark = 'e' || mark = 'E' then
      let (sign, digits) := match rest with
        | '+' :: r => (1, r)
        | '-' :: r => (1, r)
        | r => (0, r)
      match (digits.takeWhile Char.isDigit).length with
      | 0 => 0
      | n + 1 => 1 + sign + (n + 1)
    else 0
  | [] => 0

def fractionLength : List Char → Nat
  | '.' :: rest => match (rest.takeWhile Char.isDigit).length with
    | 0 => 0
    | n + 1 => n + 2
  | _ => 0

/-- How far a number goes behind its first character, a digit or a point. Only a number that starts
with a digit may have a fraction; an underscore may stand in the first run of digits. -/
def numberLength (first : Char) (rest : List Char) : Nat :=
  let run := (rest.takeWhile fun c => c.isDigit || c = '_').length
  let afterRun := rest.drop run
  let fraction := if first = '.' then 0 else fractionLength afterRun
  run + fraction + exponentLength (afterRun.drop fraction)

def numberLexeme (first : Char) (rest : List Char) : Lexeme :=
  let more := numberLength first rest
  let text := (first :: rest.take more).filter (· ≠ '_')
  match Magnitude.ofText? text with
  | some value => .token (.number value) more
  | none => .fault (.invalidNumber (String.ofList text)) more

def isNameStart (c : Char) : Bool := c.isAlpha || c = '_' || c = '$'

def isNamePart (c : Char) : Bool := c.isAlphanum || c = '_' || c = '$'

def nameLexeme (first : Char) (rest : List Char) : Lexeme :=
  let tail := rest.takeWhile isNamePart
  let name := String.ofList (first :: tail)
  let kind := match Keyword.ofText? name with
    | some w => .word w
    | none => .ident name
  .token kind tail.length

def Content.lexeme (kind : String → TokenKind) : Content → Lexeme
  | .ok (value, n) => .token (kind (String.ofList value)) n
  | .error (why, n) => .fault why n

/-- The longest mark at the front of a text, with its length behind the first character. -/
def markAt? : Char → List Char → Option (Mark × Nat)
  | '(', _ => some (.lparen, 0)
  | ')', _ => some (.rparen, 0)
  | '\x7b', _ => some (.lbrace, 0)
  | '\x7d', _ => some (.rbrace, 0)
  | '[', _ => some (.lbracket, 0)
  | ']', _ => some (.rbracket, 0)
  | ',', _ => some (.comma, 0)
  | ':', _ => some (.colon, 0)
  | ';', _ => some (.semicolon, 0)
  | '?', _ => some (.question, 0)
  | '.', _ => some (.dot, 0)
  | '+', '+' :: _ => some (.plusPlus, 1)
  | '+', '=' :: _ => some (.plusEq, 1)
  | '+', _ => some (.plus, 0)
  | '-', '-' :: _ => some (.minusMinus, 1)
  | '-', '=' :: _ => some (.minusEq, 1)
  | '-', _ => some (.minus, 0)
  | '*', '=' :: _ => some (.starEq, 1)
  | '*', _ => some (.star, 0)
  | '/', '=' :: _ => some (.slashEq, 1)
  | '/', _ => some (.slash, 0)
  | '%', '=' :: _ => some (.percentEq, 1)
  | '%', _ => some (.percent, 0)
  | '<', '=' :: _ => some (.ltEq, 1)
  | '<', _ => some (.lt, 0)
  | '>', '=' :: _ => some (.gtEq, 1)
  | '>', _ => some (.gt, 0)
  | '=', '=' :: '=' :: _ => some (.eqEqEq, 2)
  | '=', '=' :: _ => some (.eqEq, 1)
  | '=', '>' :: _ => some (.fatArrow, 1)
  | '=', _ => some (.eq, 0)
  | '!', '=' :: '=' :: _ => some (.notEqEq, 2)
  | '!', '=' :: _ => some (.notEq, 1)
  | '!', _ => some (.bang, 0)
  | '&', '&' :: _ => some (.ampAmp, 1)
  | '|', '|' :: _ => some (.pipePipe, 1)
  | _, _ => none

def startsWithDigit : List Char → Bool
  | c :: _ => c.isDigit
  | [] => false

def lexemeAt (first : Char) (rest : List Char) : Lexeme :=
  if isBlank first then .gap 0
  else if first = '/' && rest.head? = some '/' then
    .gap (rest.takeWhile (· ≠ '\n')).length
  else if first = '/' && rest.head? = some '*' then
    match blockCommentLength rest.tail with
    | .ok n => .gap (n + 1)
    | .error n => .fault .unterminatedComment (n + 1)
  else if first.isDigit || (first = '.' && startsWithDigit rest) then numberLexeme first rest
  else if first = '\x22' || first = '\x27' then (stringContent first rest).lexeme .str
  else if first = '\x60' then (templateContent rest).lexeme .template
  else if isNameStart first then nameLexeme first rest
  else match markAt? first rest with
    | some (m, more) => .token (.mark m) more
    | none => .fault (.unexpectedCharacter first) 0

/-- Scans a text from a place in it. The next `skip` characters belong to what was read last. -/
def scanFrom : List Char → (skip : Nat) → Position → Except SyntaxError (List Token)
  | [], _, p => .ok [⟨.eof, .ofLength p 0⟩]
  | c :: rest, skip + 1, p => scanFrom rest skip (p.after c)
  | c :: rest, 0, p =>
    match lexemeAt c rest with
    | .gap more => scanFrom rest more (p.after c)
    | .token kind more =>
      match scanFrom rest more (p.after c) with
      | .ok tokens => .ok (⟨kind, .ofLength p (more + 1)⟩ :: tokens)
      | .error e => .error e
    | .fault why more => .error (.scan why (.ofLength p (more + 1)))

/-- The tokens of a text; the last one is `eof`. -/
def scan (text : String) : Except SyntaxError (List Token) := scanFrom text.toList 0 .origin

end SortTrace.Script
