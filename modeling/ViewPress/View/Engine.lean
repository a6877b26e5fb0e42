import ViewPress.Compilation.Compile
import ViewPress.Template.File
import ViewPress.View.Cache

/-!
# The view engine

An engine answers requests for views below a content root. A request is a path in any
of the spellings that have the same lookup key, and it never leads out of the content
root.
-/

namespace ViewPress

structure ViewEngine where
  contentRoot : Path
  cache : ViewCache := {}
  deriving Repr

namespace ViewEngine

/-- The name of the application, which is that of its content root. -/
def application (e : ViewEngine) : String :=
  Text.lossy (e.contentRoot.fileName?.getD [])

/-- Whether a relative path stays below where it starts, and is one at all. -/
def isContained (p : Path) : Bool :=
  !p.components.isEmpty && p.components.all fun
    | .name _ | .current => true
    | .root | .parent => false

/-- The relative path that a request stands for. -/
def requested (path : String) : String :=
  String.ofList (ViewPath.relative path.toList)

/-- The first view of a module. -/
def firstView? (m : Module) : Option CompiledView :=
  (m.types.find? (·.viewPath?.isSome)).map fun type => { module := m.name, type }

/-- Compiles the template that has been opened for a request. -/
def compileEntry (e : ViewEngine) (path : String) (template : Entry) :
    Except ViewError CompiledView :=
  let relative := requested path
  let u := GeneratedUnit.ofEntry e.application relative template
  if !u.success then .error (.template path u.diagnostics)
  else
    match compileUnits relative [u] [.ok Module.host] with
    | .error diagnostics => .error (.compilation path diagnostics)
    | .ok compiled =>
        match firstView? compiled.module with
        | some v => .ok v
        | none => .error (.notFound path)

/-- The file that is opened for a request, if any is. -/
def templatePath? (e : ViewEngine) (path : String) : Option Path :=
  let relative := Path.ofString (requested path)
  if isContained relative then some (e.contentRoot.join relative) else none

/-- Compiles the template that a request stands for. -/
def compileOnDemand (e : ViewEngine) (d : Disk) (path : String) :
    Except ViewError CompiledView :=
  match e.templatePath? path with
  | none => .error (.notFound path)
  | some file =>
      match d.find file with
      | .error _ => .error (.notFound path)
      | .ok (_, template) => e.compileEntry path template

def addPrecompiled (e : ViewEngine) (loader : ModuleLoader) : ViewEngine :=
  { e with cache := e.cache.addPrecompiled loader }

/-- Finds the view that a request stands for. -/
def findView (e : ViewEngine) (d : Disk) (path : String) :
    List Console.Event × ViewEngine × Except ViewError CompiledView :=
  let (events, cache, view) := e.cache.getOrAdd d path (e.compileOnDemand d)
  (events, { e with cache }, view)

/-- Renders the view that a request stands for. -/
def render (e : ViewEngine) (d : Disk) (path : String) (model : Json) :
    List Console.Event × ViewEngine × Except ViewError String :=
  let (events, e, view) := e.findView d path
  (events, e, view.map (·.render model))

end ViewEngine

end ViewPress
