/-!
Positions in a script text. Lines and columns count from 1, offsets from 0, all in characters.
-/

namespace SortTrace.Script

structure Position where
  offset : Nat
  line : Nat
  col : Nat
deriving DecidableEq

namespace Position

def origin : Position := ⟨0, 1, 1⟩

def after (p : Position) (c : Char) : Position :=
  if c = '\n' then ⟨p.offset + 1, p.line + 1, 1⟩ else ⟨p.offset + 1, p.line, p.col + 1⟩

end Position

/-- A range of characters, from `start` up to but not including `stop`, with the line and column of
its first character. The default span is empty and lies on line 0, where no text is. -/
structure Span where
  start : Nat := 0
  stop : Nat := 0
  line : Nat := 0
  col : Nat := 0
deriving DecidableEq, Inhabited

namespace Span

def ofLength (p : Position) (length : Nat) : Span := ⟨p.offset, p.offset + length, p.line, p.col⟩

/-- The smallest span over both, placed where the earlier one starts. -/
def cover (a b : Span) : Span :=
  let first := if b.start < a.start then b else a
  { first with stop := max a.stop b.stop }

def text (s : Span) : String := s!"{s.line}:{s.col}"

end Span

end SortTrace.Script
