/-!
# Modules

A module is a named list of exported types. Applications, libraries and the
precompiled views all come as modules. A type that is a view carries the path of
its template as the argument of a `ViewPath` attribute, and the instructions that
render it.
-/

namespace ViewPress

/-- Instructions of a render body. A path is a variable followed by members. -/
inductive Instr where
  | write (text : String)
  | emit (path : List String)
  | branch (cond : List String) (negate : Bool) (yes no : List Instr)
  | forEach (binding : String) (source : List String) (body : List Instr)
  deriving Repr

inductive TypeKind where
  | classType
  | interfaceType
  | attributeType
  deriving DecidableEq, Repr

structure AttributeDef where
  name : String
  args : List String
  deriving DecidableEq, Repr

structure TypeDef where
  name : String
  kind : TypeKind
  bases : List String := []
  attributes : List AttributeDef := []
  body : List Instr := []
  deriving Repr

structure Module where
  name : String
  types : List TypeDef
  deriving Repr

def TypeKind.keyword : TypeKind → String
  | .classType => "class"
  | .interfaceType => "interface"
  | .attributeType => "attribute"

namespace Module

/-- The name and file stem of the module of precompiled views. -/
def artifactName : String := "precompiledviews"

/-- The extension of the files of library modules. -/
def libraryExtension : String := "mod"

/-- The extension of the files of executable modules. -/
def executableExtension : String := "bin"

/-- The name of the built-in module. -/
def hostName : String := "precompile_views.host"

/-- The interface that makes a class a page. -/
def pageMarker : String := "TemplatePage"

/-- The base of a page that names none. -/
def pageBase : String := "Page"

/-- The attribute that carries the path of a view. -/
def viewPathAttribute : String := "ViewPath"

end Module

/-- The path of a view: the first argument of its first `ViewPath` attribute. -/
def TypeDef.viewPath? (t : TypeDef) : Option String :=
  match t.attributes.find? (·.name == Module.viewPathAttribute) with
  | some a => a.args.head?
  | none => none

namespace Module

/-- The first type of a name. -/
def findType? (m : Module) (name : String) : Option TypeDef :=
  m.types.find? (·.name == name)

/-- The types that have a view path, with it, in order. -/
def taggedTypes (m : Module) : List (String × TypeDef) :=
  m.types.filterMap fun t => t.viewPath?.map fun path => (path, t)

/-- The built-in module, which every compilation can refer to: the page marker,
the default base of pages, and the attribute that tags them. -/
def host : Module where
  name := hostName
  types :=
    [ { name := pageMarker, kind := .interfaceType },
      { name := pageBase, kind := .classType, bases := [pageMarker] },
      { name := viewPathAttribute, kind := .attributeType } ]

end Module

end ViewPress
