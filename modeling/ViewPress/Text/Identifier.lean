import ViewPress.Text.Blank

/-!
# Identifiers and dotted names

An identifier is an ASCII letter or underscore followed by ASCII letters, digits
and underscores. A dotted name is one or more identifiers joined by points; it
names a type, or a value reached through the members of another.
-/

namespace ViewPress.Text

/-- What an identifier may start with. -/
def isIdentStart (c : Char) : Bool :=
  c.isAlpha || c == '_'

/-- What an identifier may go on with. -/
def isIdentRest (c : Char) : Bool :=
  c.isAlphanum || c == '_'

/-- Whether the whole text is one identifier. -/
def isIdent : List Char → Bool
  | [] => false
  | c :: cs => isIdentStart c && cs.all isIdentRest

/-- The segments of a dotted name, if that is what the text is. -/
def dotted? (cs : List Char) : Option (List String) :=
  let segments := splitOn (· == '.') cs
  if segments.all isIdent then some (segments.map String.ofList) else none

/-- A dotted name written out. -/
def joinDots (segments : List String) : String :=
  ".".intercalate segments

end ViewPress.Text
