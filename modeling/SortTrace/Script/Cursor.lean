import SortTrace.Script.Error

/-!
A cursor is a place in a list of tokens. A list may end without an `eof` token: behind its end, and
from its first `eof` on, the cursor sees only `eof` and does not move.
-/

namespace SortTrace.Script

/-- The tokens ahead and the span of the token passed last. -/
structure Cursor where
  rest : List Token
  last : Span := {}

namespace Cursor

def kind (c : Cursor) : TokenKind :=
  match c.rest with
  | t :: _ => t.kind
  | [] => .eof

/-- The span of the next token, the default span behind the end. -/
def span (c : Cursor) : Span :=
  match c.rest with
  | t :: _ => t.span
  | [] => {}

/-- Passes the next token, unless it is `eof`. -/
def advance (c : Cursor) : Cursor :=
  match c.rest with
  | t :: rest => if t.kind = .eof then c else ⟨rest, t.span⟩
  | [] => c

def sees (c : Cursor) (m : Mark) : Bool := c.kind = .mark m

def skip (c : Cursor) (m : Mark) : Cursor := if c.sees m then c.advance else c

def fail {α : Type} (c : Cursor) (fault : ParseFault) : Except SyntaxError α :=
  .error (.parse fault c.span)

def expect (c : Cursor) (wanted : TokenKind) : Except SyntaxError Cursor :=
  if c.kind = wanted then .ok c.advance else c.fail (.expectedToken wanted c.kind)

def name (c : Cursor) : Except SyntaxError (String × Cursor) :=
  match c.kind with
  | .ident name => .ok (name, c.advance)
  | found => c.fail (.expectedIdentifier found)

/-- Passes the name of a property, which may be a reserved word. -/
def property (c : Cursor) : Except SyntaxError (String × Cursor) :=
  match c.kind with
  | .ident name => .ok (name, c.advance)
  | .word w => .ok (w.text, c.advance)
  | found => c.fail (.expectedProperty found)

end Cursor

end SortTrace.Script
