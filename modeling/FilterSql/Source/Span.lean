import FilterSql.Text.Chars
import FilterSql.Text.Json

/-! Places in a source text. Offsets count UTF-8 bytes; lines and columns count from one, columns in
characters, and only a line feed starts a new line. -/
namespace FilterSql

structure Position where
  offset : Nat
  line : Nat
  column : Nat
deriving DecidableEq, Inhabited

namespace Position

def start : Position := ⟨0, 1, 1⟩

def step (p : Position) (c : Char) : Position :=
  if c = '\n' then ⟨p.offset + c.utf8Size, p.line + 1, 1⟩
  else ⟨p.offset + c.utf8Size, p.line, p.column + 1⟩

def after (p : Position) (cs : List Char) : Position := cs.foldl step p

end Position

/-- A stretch of the source, with the line and column it starts at. -/
structure Span where
  start : Nat
  stop : Nat
  line : Nat
  column : Nat
deriving DecidableEq, Inhabited

namespace Span

/-- The smallest span over both; the place is that of the one that starts first. -/
def cover (a b : Span) : Span :=
  let first := if a.start ≤ b.start then a else b
  ⟨first.start, max a.stop b.stop, first.line, first.column⟩

/-- The empty span at the end, keeping the place of the start. -/
def atStop (s : Span) : Span := ⟨s.stop, s.stop, s.line, s.column⟩

def text (s : Span) : String := s!"line {s.line}, column {s.column}"

def json (s : Span) : Json :=
  .object [("start", .natural s.start), ("end", .natural s.stop), ("line", .natural s.line),
    ("column", .natural s.column)]

end Span

namespace Source

def lineAfter (before : List Char) : Nat := 1 + before.count '\n'

/-- The column that text behind `before` begins at: one more than the characters since the last line feed. -/
def columnAfter (before : List Char) : Nat := 1 + (before.reverse.takeWhile (· ≠ '\n')).length

def place (before : List Char) : Position := ⟨Text.byteLength before, lineAfter before, columnAfter before⟩

end Source

/-- The span of `part` behind `before` in a lexeme with the span `whole`, by counting from its start. -/
def Span.inner (whole : Span) (before part : List Char) : Span :=
  let start := whole.start + Text.byteLength before
  let column := if '\n' ∈ before then Source.columnAfter before else whole.column + before.length
  ⟨start, start + Text.byteLength part, whole.line + before.count '\n', column⟩

def Position.span (p : Position) (cs : List Char) : Span :=
  ⟨p.offset, p.offset + Text.byteLength cs, p.line, p.column⟩

end FilterSql
