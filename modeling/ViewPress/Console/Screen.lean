import ViewPress.Console.Style
import ViewPress.Text.Utf8

/-!
# What a screen receives

Work reports what it does as a list of events, and a terminal turns them into text.
While a progress line is on the screen, messages erase it first. A progress line is
drawn on interactive terminals only, and only for more than one item; once erased it
can still be drawn again, but messages no longer erase it.
-/

namespace ViewPress.Console

inductive Event where
  | log (topic message : String)
  | print (text : String)
  | start (topic : String) (total : Nat)
  | advance
  | finish
  | drop
  deriving DecidableEq, Repr

structure Terminal where
  interactive : Bool
  style : Style
  width : Nat := 120
  deriving Repr

structure ProgressLine where
  topic : String
  total : Nat
  current : Nat := 0
  deriving DecidableEq, Repr

/-- The progress line that is held, and whether it is on the screen. -/
structure Screen where
  line : Option ProgressLine := none
  shown : Bool := false
  deriving DecidableEq, Repr

def topicColor (topic : String) : Color :=
  match topic.map Char.toLower with
  | "runtime" => .brightBlue
  | "done" => .brightGreen
  | "warn" => .brightMagenta
  | "error" => .brightRed
  | _ => .brightYellow

/-- The topic in front of a line. -/
def label (style : Style) (topic : String) : String :=
  style.paint (topicColor topic) ("[" ++ topic ++ "]")

/-- The room that a label and the blank after it take. -/
def labelRoom (topic : String) : Nat :=
  topic.utf8ByteSize + 3

/-- The longest start of a text with at most `n` bytes. -/
def cut : Nat → List Char → List Char
  | _, [] => []
  | n, c :: cs => if c.utf8Size ≤ n then c :: cut (n - c.utf8Size) cs else []

def eraseLine : String := "\x1b[2K"
def toColumnZero : String := "\x1b[1G"

/-- A message in a line of its own. It is cut to the width, unless it has more than
one line. -/
def Terminal.message (t : Terminal) (topic message : String) : String :=
  let shown :=
    if message.toList.contains '\n' then message
    else String.ofList (cut (t.width - labelRoom topic) message.toList)
  label t.style topic ++ " " ++ shown ++ "\n"

/-- The width of the bar beside a label and a count. -/
def barWidth (width label count : Nat) : Nat :=
  min 40 (max 10 (width - (label + 3 + 1 + count)))

def Terminal.drawn (t : Terminal) (line : ProgressLine) : String :=
  let count := toString line.current ++ "/" ++ toString line.total
  let width := barWidth t.width (labelRoom line.topic) count.utf8ByteSize
  let filled := min line.current line.total * width / line.total
  eraseLine ++ "\r" ++ label t.style line.topic ++ " ["
    ++ String.ofList (List.replicate filled '█' ++ List.replicate (width - filled) '░')
    ++ "] " ++ count

/-- Erases the progress line, if one is held and on the screen. -/
def Screen.erase (s : Screen) : Screen × String :=
  if s.line.isSome && s.shown then ({ s with shown := false }, eraseLine ++ toColumnZero)
  else (s, "")

/-- What an event makes of the screen, and what it writes. -/
def Terminal.step (t : Terminal) (s : Screen) : Event → Screen × String
  | .log topic message =>
      (s, (if s.shown then eraseLine ++ "\r" else "") ++ t.message topic message)
  | .print text => (s, text)
  | .start topic total =>
      let (_, erased) := s.erase
      if total ≤ 1 || !t.interactive then ({}, erased)
      else ({ line := some { topic, total }, shown := true }, erased)
  | .advance =>
      match s.line with
      | some line =>
          let line := { line with current := line.current + 1 }
          ({ s with line := some line }, t.drawn line)
      | none => (s, "")
  | .finish => s.erase
  | .drop => ({}, s.erase.2)

/-- Everything that a list of events writes. -/
def Terminal.output (t : Terminal) (s : Screen) : List Event → String
  | [] => ""
  | e :: es =>
      let (s, text) := t.step s e
      text ++ t.output s es

end ViewPress.Console
