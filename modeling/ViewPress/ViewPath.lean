/-!
# View paths

A view is asked for by a path such as `~/Home/Index.tpl`. Requests, template
files and artifact entries are all compared through `lookupKey`, which forgets
the kind of slash, a home marker, leading slashes and the case of ASCII letters.
-/

namespace ViewPress.ViewPath

/-- Backslashes read as slashes. -/
def forwardSlashes (cs : List Char) : List Char :=
  cs.map fun c => if c = '\\' then '/' else c

/-- The path without one leading home marker `~/`. -/
def dropHome : List Char → List Char
  | '~' :: '/' :: cs => cs
  | cs => cs

/-- The path relative to the root it is asked of: slashes unified, one home
marker dropped, then all leading slashes. -/
def relative (cs : List Char) : List Char :=
  (dropHome (forwardSlashes cs)).dropWhile (· == '/')

/-- The key under which a path is looked up. -/
def lookupKey (path : String) : String :=
  String.ofList ((relative path.toList).map Char.toLower)

end ViewPress.ViewPath
