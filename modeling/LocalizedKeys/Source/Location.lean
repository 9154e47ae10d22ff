import LocalizedKeys.Source.Cursor

/-!
# Spans and locations

A span is a range of character offsets; a location is a span together with the line and column
of its start, both counted from one. Lines end at line feeds.

There are two ways to a line and column. `lineColumn` counts line feeds before the place.
`LineTable` holds the offset where each line starts and searches it by halving, for use with
many places of one text; places outside the text count as its nearest end.
-/

namespace LocalizedKeys

/-- A range of character offsets, its end excluded. -/
structure Span where
  start : Nat
  stop : Nat
deriving DecidableEq, Repr

/-- Why two numbers are not the bounds of a span. -/
inductive SpanError where
  | negativeStart (start : Int)
  | endsBeforeStart (start stop : Int)
deriving DecidableEq, Repr

/-- The span with the given bounds. -/
def Span.ofBounds (start stop : Int) : Except SpanError Span :=
  if start < 0 then .error (.negativeStart start)
  else if stop < start then .error (.endsBeforeStart start stop)
  else .ok ⟨start.toNat, stop.toNat⟩

/-- What is reported about wrong bounds of a span. -/
def SpanError.message : SpanError → String
  | .negativeStart start => s!"Span start must be >= 0, got {start}"
  | .endsBeforeStart start stop => s!"Span end ({stop}) must be >= start ({start})"

/-- A span and the line and column of its start. -/
structure Location where
  start : Nat
  stop : Nat
  line : Nat
  column : Nat
deriving DecidableEq, Repr

/-- Why four numbers are not a location. -/
inductive LocationError where
  | negativeStart (start : Int)
  | endsBeforeStart (start stop : Int)
  | lineBelowOne (line : Int)
  | columnBelowOne (column : Int)
deriving DecidableEq, Repr

/-- The location made of the given numbers. -/
def Location.ofNumbers (start stop line column : Int) : Except LocationError Location :=
  if start < 0 then .error (.negativeStart start)
  else if stop < start then .error (.endsBeforeStart start stop)
  else if line < 1 then .error (.lineBelowOne line)
  else if column < 1 then .error (.columnBelowOne column)
  else .ok ⟨start.toNat, stop.toNat, line.toNat, column.toNat⟩

/-- What is reported about numbers that are no location. -/
def LocationError.message : LocationError → String
  | .negativeStart start => s!"SourceSpan.start must be >= 0, got {start}"
  | .endsBeforeStart start stop => s!"SourceSpan.end ({stop}) must be >= start ({start})"
  | .lineBelowOne line => s!"SourceSpan.line must be >= 1 (1-indexed), got {line}"
  | .columnBelowOne column => s!"SourceSpan.column must be >= 1 (1-indexed), got {column}"

/-- The offset at which the line of a place starts. -/
def lineStart (text : List Char) (pos : Nat) : Nat :=
  let before := text.take pos
  before.length - (before.reverse.takeWhile (· != '\n')).length

/-- The line and column of an offset, found by counting. -/
def lineColumn (text : List Char) (pos : Nat) : Nat × Nat :=
  ((text.take pos).count '\n' + 1, pos - lineStart text pos + 1)

/-- The location of a span. -/
def Location.of (text : List Char) (start stop : Nat) : Location :=
  let (line, column) := lineColumn text start
  ⟨start, stop, line, column⟩

/-! ## Looking up many places -/

/-- The offsets at which the lines of a text start, and the length of the text. -/
structure LineTable where
  starts : Array Nat
  length : Nat
deriving Repr

namespace LineTable

/-- The offsets after the line feeds of a text that begins at offset `pos`. -/
def offsetsAfterBreaks (pos : Nat) : List Char → List Nat
  | [] => []
  | c :: rest =>
    if c = '\n' then (pos + 1) :: offsetsAfterBreaks (pos + 1) rest
    else offsetsAfterBreaks (pos + 1) rest

/-- The line table of a text. -/
def ofText (text : List Char) : LineTable :=
  ⟨(0 :: offsetsAfterBreaks 0 text).toArray, text.length⟩

/-- The last index between `low` and `high` whose entry is at most `pos`, when the one at `low`
is; the range is halved until one index is left. -/
def search (starts : Array Nat) (pos low high : Nat) : Nat :=
  if low < high then
    let middle := (low + high + 1) / 2
    if starts.getD middle 0 ≤ pos then search starts pos middle high
    else search starts pos low (middle - 1)
  else low
termination_by high - low

/-- The line and column of an offset. -/
def locate (table : LineTable) (pos : Int) : Nat × Nat :=
  let place := min pos.toNat table.length
  let index := search table.starts place 0 (table.starts.size - 1)
  (index + 1, place - table.starts.getD index 0 + 1)

/-- The location of a span. -/
def location (table : LineTable) (span : Span) : Location :=
  let (line, column) := table.locate span.start
  ⟨span.start, span.stop, line, column⟩

/-- The location with the given bounds, which may be no span. -/
def location? (table : LineTable) (start stop : Int) : Except LocationError Location :=
  let (line, column) := table.locate start
  Location.ofNumbers start stop line column

end LineTable

end LocalizedKeys
