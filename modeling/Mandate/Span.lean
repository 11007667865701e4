/-
  Mandate.Span

  Half-open ranges of offsets into a source, and how they read to a person: the
  line of the start, counted from one, and the columns covered on that line. A
  range that goes past the end of its first line is cut there.

  Offsets are integers. One below zero counts from the end of the text, as far
  as the text reaches.
-/

namespace Mandate

/-- The characters from `start` up to, but not including, `stop`. -/
structure Span where
  start : Int
  stop : Int
  deriving DecidableEq, Repr, Inhabited

namespace Span

/-- The span of what has no place in the source. -/
def none : Span := ⟨0, 0⟩

/-- The two offsets. -/
def text (s : Span) : String := s!"{s.start}..{s.stop}"

/-- The smallest span around two. -/
def merge (a b : Span) : Span := ⟨min a.start b.start, max a.stop b.stop⟩

/-- How many of `length` characters are before an offset. -/
def charactersBefore (length : Nat) (offset : Int) : Nat :=
  if offset < 0 then (length + offset).toNat else min offset.toNat length

/-- A line, counted from one, and the first and last column on it. -/
structure Columns where
  line : Nat
  first : Int
  last : Int
  deriving DecidableEq, Repr

/-- The line of the start of a span, and the columns it covers there, counted from zero. -/
def columns (s : Span) (source : List Char) : Columns :=
  let cut := charactersBefore source.length s.start
  let before := source.take cut
  let lineStart := cut - (before.reverse.takeWhile (· != '\n')).length
  let lineEnd : Int := cut + ((source.drop cut).takeWhile (· != '\n')).length
  let stop := if s.start < lineEnd then min s.stop lineEnd else s.stop
  ⟨before.count '\n' + 1, s.start - lineStart, stop - lineStart⟩

/-- The place of a span for a person, columns counted from one. -/
def describe (s : Span) (source : List Char) : String :=
  let c := s.columns source
  let first := c.first + 1
  let last := c.last + 1
  let line := c.line
  s!"Line: {line}, Character: {first}-{last}"

end Span

end Mandate
