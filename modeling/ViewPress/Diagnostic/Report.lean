import ViewPress.Console.Style
import ViewPress.Diagnostic.Location

/-!
# Diagnostics and their report

A diagnostic is one error found in a view, with the place it points to and hints
on how to mend it. A report shows a list of them, each with the line of source it
is about and markers under the highlighted range.
-/

namespace ViewPress

/-- One error found while a view is generated or compiled. -/
structure Diagnostic where
  /-- What is wrong. -/
  message : String
  /-- Where, if it is about a place in a text. -/
  location : Option Location := none
  /-- How to mend it. -/
  hints : List String := []
  deriving DecidableEq, Repr

namespace Diagnostic

/-- A diagnostic about a byte range of a source text. -/
def ofSpan (path source : String) (span : Span) (message : String) : Diagnostic :=
  { message, location := some (Location.ofSpan path source span) }

/-- One line: the place, if any, and the message. -/
def display (d : Diagnostic) : String :=
  match d.location with
  | some l => l.path ++ ":" ++ toString l.line ++ ":" ++ toString l.column ++ ": " ++ d.message
  | none => d.message

/-- A text of `n` copies of a character. -/
def fill (n : Nat) (c : Char) : String :=
  String.ofList (List.replicate n c)

/-- The lines that show a location: header, gutter, source and markers, with the
gutter as wide as the line number. -/
def snippet (style : Style) (l : Location) : String :=
  let number := toString l.line
  let margin := fill number.length ' '
  let bar := style.paint .red "│"
  margin ++ " " ++ style.paint .red "┌─" ++ " " ++ l.path ++ ":" ++ number ++ ":"
      ++ toString l.column ++ "\n"
    ++ margin ++ " " ++ bar ++ "\n"
    ++ style.paint .red number ++ " " ++ bar ++ " " ++ l.lineText ++ "\n"
    ++ margin ++ " " ++ bar ++ " " ++ fill (l.column - 1) ' '
      ++ style.paint .red (fill (max l.len 1) '^') ++ "\n"

/-- A diagnostic as a report shows it. -/
def describe (style : Style) (d : Diagnostic) : String :=
  style.paint .red "error" ++ ": " ++ d.message ++ "\n"
    ++ (d.location.map (snippet style)).getD ""
    ++ String.join (d.hints.map fun h => "  " ++ style.paint .cyan "=" ++ " hint: " ++ h ++ "\n")

/-- The report of a list of diagnostics, in order. -/
def report (style : Style) (ds : List Diagnostic) : String :=
  String.join (ds.map (Diagnostic.describe style))

end Diagnostic

end ViewPress
