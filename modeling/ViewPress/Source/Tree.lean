import ViewPress.Diagnostic.Location

/-!
# Trees of the view language

A source text declares classes and interfaces. A declaration may carry
attributes, name its bases, and hold one render block, whose statements write
fixed text, emit a value of the model, choose, or loop.
-/

namespace ViewPress.Source

/-- A value reached from a variable through members, such as `model.user.name`. -/
structure ValuePath where
  segments : List String
  span : Span := {}
  deriving DecidableEq, Repr

/-- The variable a path starts at. -/
def ValuePath.root (p : ValuePath) : String :=
  p.segments.headD ""

inductive Statement where
  | write (text : String)
  | emit (path : ValuePath)
  | branch (cond : ValuePath) (negate : Bool) (yes : List Statement)
      (no : Option (List Statement))
  | forEach (binding : String) (source : ValuePath) (body : List Statement)
  deriving Repr

inductive DeclarationKind where
  | classType
  | interfaceType
  deriving DecidableEq, Repr

/-- A use of an attribute. -/
structure Attribute where
  name : String
  args : List String
  /-- The bytes it covers, from `#` to `]`. -/
  span : Span := {}
  deriving DecidableEq, Repr

/-- A type named as a base. -/
structure BaseRef where
  name : String
  span : Span := {}
  deriving DecidableEq, Repr

structure Declaration where
  attributes : List Attribute
  kind : DeclarationKind
  name : String
  bases : List BaseRef
  render : Option (List Statement)
  /-- The bytes its name covers. -/
  span : Span := {}
  deriving Repr

/-- A parsed source text, with the path of the view it belongs to. -/
structure Tree where
  path : String
  source : String
  types : List Declaration
  deriving Repr

end ViewPress.Source
