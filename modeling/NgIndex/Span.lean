/-!
# Positions and spans

A position in a text is counted in lines and in bytes of the UTF-8 form, both from zero.  Lines
end at a line feed only.  A span runs from its start to its end; the end is exclusive as a range of
text, but a cursor standing at the end still counts as inside.
-/

namespace NgIndex

/-- A place in a text: the byte offset, the line and the byte offset within the line. -/
structure Position where
  byte : Nat := 0
  line : Nat := 0
  column : Nat := 0
  deriving DecidableEq, Repr, Inhabited

/-- The place after one more character. -/
def Position.advance (p : Position) (c : Char) : Position :=
  if c == '\n' then ⟨p.byte + 1, p.line + 1, 0⟩
  else ⟨p.byte + c.utf8Size, p.line, p.column + c.utf8Size⟩

/-- The place after a list of characters. -/
def Position.after (p : Position) (cs : List Char) : Position :=
  cs.foldl Position.advance p

/-- A range of lines and columns. -/
structure Span where
  startLine : Nat := 0
  startColumn : Nat := 0
  endLine : Nat := 0
  endColumn : Nat := 0
  deriving DecidableEq, Repr, Inhabited

namespace Span

/-- The span between two positions. -/
def between (start stop : Position) : Span :=
  ⟨start.line, start.column, stop.line, stop.column⟩

/-- Whether a cursor is inside a span, both ends included. -/
def contains (s : Span) (line column : Nat) : Bool :=
  decide (s.startLine ≤ line) && decide (line ≤ s.endLine) &&
    !(line == s.startLine && decide (column < s.startColumn)) &&
    !(line == s.endLine && decide (s.endColumn < column))

/-- Whether a line is among the lines of a span. -/
def containsLine (s : Span) (line : Nat) : Bool :=
  decide (s.startLine ≤ line) && decide (line ≤ s.endLine)

end Span
end NgIndex
