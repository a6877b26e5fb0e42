import ViewPress.Text.Hex

/-!
# Class names of views

The class of a view is named after the path of its template. The readable stem
has an underscore for every character that is not an ASCII letter or digit, and
the replaced characters follow as hexadecimal code points, so that different
paths get different names.
-/

namespace ViewPress.Template

/-- The path with an underscore for each character that is not an ASCII letter
or digit. -/
def classStem (path : List Char) : List Char :=
  path.map fun c => if c.isAlphanum then c else '_'

/-- The code points that the stem hides, in order. -/
def hiddenCodePoints (path : List Char) : List (List Char) :=
  (path.filter fun c => !c.isAlphanum).map fun c => Text.hexOfNat c.toNat

/-- The name of the class generated for the template at `path`. -/
def className (path : String) : String :=
  let stem := "View_".toList ++ classStem path.toList
  match hiddenCodePoints path.toList with
  | [] => String.ofList stem
  | hidden => String.ofList (stem ++ ['_', '_'] ++ ['_'].intercalate hidden)

end ViewPress.Template
