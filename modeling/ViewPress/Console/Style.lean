/-!
# Colours on a terminal

Everything that may be coloured is painted through a `Style`. A plain style
leaves text alone; a coloured one wraps it in the terminal's select and reset
sequences.
-/

namespace ViewPress

/-- The colours in use, the bright ones being bold. -/
inductive Color where
  | red
  | cyan
  | brightBlue
  | brightGreen
  | brightMagenta
  | brightRed
  | brightYellow
  deriving DecidableEq, Repr

/-- The parameters of the select sequence. -/
def Color.codes : Color → String
  | .red => "31"
  | .cyan => "36"
  | .brightBlue => "1;94"
  | .brightGreen => "1;92"
  | .brightMagenta => "1;95"
  | .brightRed => "1;91"
  | .brightYellow => "1;93"

/-- Whether output is coloured. -/
inductive Style where
  | plain
  | colored
  deriving DecidableEq, Repr

/-- The sequence that ends a colour. -/
def resetSequence : String := "\x1b[0m"

/-- The sequence that starts a colour. -/
def Color.selectSequence (color : Color) : String :=
  "\x1b[" ++ color.codes ++ "m"

/-- Text in a colour, when the style has colours. A reset inside the text is
followed by the colour again, so that it does not end early. -/
def Style.paint (style : Style) (color : Color) (text : String) : String :=
  match style with
  | .plain => text
  | .colored =>
      let select := color.selectSequence
      select ++ (resetSequence ++ select).intercalate (text.splitOn resetSequence)
        ++ resetSequence

end ViewPress
