import SortTrace.Script.Token

/-!
Why a text is not a script, and the words for it.
-/

namespace SortTrace.Script

inductive ScanFault where
  | unexpectedCharacter (c : Char)
  | unterminatedString
  | unterminatedEscape
  | unterminatedTemplate
  | unterminatedComment
  | invalidNumber (text : String)
deriving DecidableEq

def ScanFault.message : ScanFault → String
  | unexpectedCharacter c => s!"unexpected character '{c}'"
  | unterminatedString => "unterminated string literal"
  | unterminatedEscape => "unterminated escape sequence"
  | unterminatedTemplate => "unterminated template literal"
  | unterminatedComment => "unterminated block comment"
  | invalidNumber text => s!"invalid number literal '{text}'"

inductive ParseFault where
  | expectedToken (wanted found : TokenKind)
  | expectedDeclaration (found : TokenKind)
  | expectedIdentifier (found : TokenKind)
  | expectedProperty (found : TokenKind)
  | expectedExpression (found : TokenKind)
  | expectedFunctionName
  | unclosedBlock
  /-- The left side of an assignment, printed, cannot be assigned to. -/
  | invalidTarget (text : String)
  /-- The allowance for nested rules ran out. -/
  | tooDeep
deriving DecidableEq

def ParseFault.message : ParseFault → String
  | expectedToken wanted found => s!"expected '{wanted.text}', found '{found.text}'"
  | expectedDeclaration found => s!"expected declaration, found '{found.text}'"
  | expectedIdentifier found => s!"expected identifier, found '{found.text}'"
  | expectedProperty found => s!"expected property name, found '{found.text}'"
  | expectedExpression found => s!"expected expression, found '{found.text}'"
  | expectedFunctionName => "expected function name"
  | unclosedBlock => "expected '\x7d', found end of input"
  | invalidTarget text => s!"invalid assignment target '{text}'"
  | tooDeep => "nested too deeply"

inductive SyntaxError where
  | scan (fault : ScanFault) (span : Span)
  | parse (fault : ParseFault) (span : Span)
deriving DecidableEq

namespace SyntaxError

def span : SyntaxError → Span
  | scan _ s => s
  | parse _ s => s

def reason : SyntaxError → String
  | scan fault _ => fault.message
  | parse fault _ => fault.message

def message (e : SyntaxError) : String :=
  let stage := match e with
    | scan .. => "lex"
    | parse .. => "parse"
  s!"{stage} error at {e.span.text}: {e.reason}"

end SyntaxError

end SortTrace.Script
