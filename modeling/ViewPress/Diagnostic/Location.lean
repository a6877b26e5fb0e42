import ViewPress.Text.Utf8

/-!
# Locations

A location is where a byte range of a text lies: its line, its column and width
in characters, and the text of the line. A range that runs past the end of its
line is cut there, and every range is at least one character wide.
-/

namespace ViewPress

/-- A range of bytes. -/
structure Span where
  start : Nat := 0
  len : Nat := 0
  deriving DecidableEq, Repr, Inhabited

/-- Offset of the first byte after the range. -/
def Span.stop (s : Span) : Nat :=
  s.start + s.len

/-- Where a diagnostic points. -/
structure Location where
  path : String
  /-- The line, counted from one. -/
  line : Nat
  /-- The column in characters, counted from one. -/
  column : Nat
  /-- The highlighted width in characters. -/
  len : Nat
  lineText : String
  deriving DecidableEq, Repr

namespace Text

/-- The longest prefix of at most `n` bytes, and the rest. -/
def splitAtByte (n : Nat) : List Char → List Char × List Char
  | [] => ([], [])
  | c :: cs =>
      if c.utf8Size ≤ n then
        let (before, after) := splitAtByte (n - c.utf8Size) cs
        (c :: before, after)
      else ([], c :: cs)

def lastLine (cs : List Char) : List Char :=
  (cs.reverse.takeWhile (· ≠ '\n')).reverse

def firstLine (cs : List Char) : List Char :=
  cs.takeWhile (· ≠ '\n')

/-- The text without the carriage returns at its end. -/
def dropReturns (cs : List Char) : List Char :=
  (cs.reverse.dropWhile (· == '\r')).reverse

end Text

/-- The number of characters in the first `n` bytes of a line, cut at its end,
and at least one. A range that ends inside a character counts as one. -/
def Location.width (line : List Char) (n : Nat) : Nat :=
  let limit := min n (Text.byteSize line)
  let taken := (Text.splitAtByte limit line).1
  if Text.byteSize taken = limit then max taken.length 1 else 1

/-- The location of a byte range of `source`. -/
def Location.ofSpan (path : String) (source : String) (span : Span) : Location :=
  let (before, after) := Text.splitAtByte span.start source.toList
  let lineHead := Text.lastLine before
  let lineTail := Text.firstLine after
  { path
    line := before.count '\n' + 1
    column := lineHead.length + 1
    len := Location.width lineTail span.len
    lineText := String.ofList (Text.dropReturns (lineHead ++ lineTail)) }

end ViewPress
