import ViewPress.Compilation.Symbol
import ViewPress.Diagnostic.Report
import ViewPress.Json.Printer
import ViewPress.Source.Printer
import ViewPress.ViewPath

/-!
# Emission

The trees of a compilation become the types of one module, in order. A unit with a
page must tag one of its pages with one path, and no two pages may own paths with
the same lookup key.
-/

namespace ViewPress

mutual

def Source.Statement.lower : Source.Statement → Instr
  | .write text => .write text
  | .emit path => .emit path.segments
  | .branch cond negate yes none => .branch cond.segments negate (lowerAll yes) []
  | .branch cond negate yes (some no) =>
      .branch cond.segments negate (lowerAll yes) (lowerAll no)
  | .forEach binding source body => .forEach binding source.segments (lowerAll body)

/-- The instructions of a render block. -/
def lowerAll : List Source.Statement → List Instr
  | [] => []
  | s :: rest => s.lower :: lowerAll rest

end

def Source.Declaration.typeDef (d : Source.Declaration) : TypeDef where
  name := d.name
  kind := d.kind.typeKind
  bases := d.bases.map Source.BaseRef.name
  attributes := d.attributes.map fun a => { name := a.name, args := a.args }
  body := lowerAll (d.render.getD [])

/-- Whether a declaration is a class that is or derives from the page marker. -/
def Symbols.isPage (symbols : Symbols) (d : Source.Declaration) : Bool :=
  d.kind == .classType && symbols.implements d.name Module.pageMarker

def Source.Declaration.tags (d : Source.Declaration) : List Source.Attribute :=
  d.attributes.filter (·.name == Module.viewPathAttribute)

inductive EmissionProblem where
  | ownedTwice (path first second : String)
  | untagged (name : String)
  deriving DecidableEq, Repr

def EmissionProblem.message : EmissionProblem → String
  | .ownedTwice path first second =>
      "template path `" ++ path ++ "` is claimed by both `" ++ first ++ "` and `" ++ second ++ "`"
  | .untagged name =>
      "page `" ++ name ++ "` must carry exactly one `" ++ Module.viewPathAttribute ++ "` path"

/-- The lookup keys taken so far, each with the page that took it last, the latest first. -/
abbrev Owners := List (String × String)

/-- Takes up the tags of a page: the owners after it and what is wrong with the tags. -/
def Owners.page (owners : Owners) (d : Source.Declaration) : Owners × List EmissionProblem :=
  match d.tags with
  | [] => (owners, [])
  | [tag] =>
      match tag.args with
      | [path] =>
          let key := ViewPath.lookupKey path
          ((key, d.name) :: owners,
            match owners.lookup key with
            | some first => [.ownedTwice path first d.name]
            | none => [])
      | _ => (owners, [.untagged d.name])
  | _ => (owners, [.untagged d.name])

/-- Takes up the pages of a tree in order. -/
def Owners.pages (owners : Owners) :
    List Source.Declaration → Owners × List (Source.Declaration × EmissionProblem)
  | [] => (owners, [])
  | d :: rest =>
      let (owners, problems) := owners.page d
      let (owners, more) := owners.pages rest
      (owners, problems.map (d, ·) ++ more)

/-- Takes up a tree: its pages, of which one must be tagged. -/
def Owners.tree (owners : Owners) (symbols : Symbols) (tree : Source.Tree) :
    Owners × List (Source.Declaration × EmissionProblem) :=
  let pages := tree.types.filter symbols.isPage
  let (owners, problems) := owners.pages pages
  match pages with
  | first :: _ =>
      if pages.all (·.tags.isEmpty) then (owners, problems ++ [(first, .untagged first.name)])
      else (owners, problems)
  | [] => (owners, problems)

def Owners.trees (owners : Owners) (symbols : Symbols) : List Source.Tree → List Diagnostic
  | [] => []
  | tree :: rest =>
      let (owners, problems) := owners.tree symbols tree
      problems.map (fun (d, p) => Diagnostic.ofSpan tree.path tree.source d.span p.message)
        ++ owners.trees symbols rest

namespace Compilation

/-- The module of all declared types, unless their tags are at odds. -/
def emit (c : Compilation) (name : String) : Except (List Diagnostic) Module :=
  match Owners.trees [] c.symbols c.trees with
  | [] => .ok { name, types := c.trees.flatMap fun t => t.types.map Source.Declaration.typeDef }
  | problems => .error problems

/-- What the debugger gets to know: the types and code of each unit. -/
def debugInfo (c : Compilation) (name : String) : String :=
  Json.pretty 0 (.obj
    [ ("module", .str name),
      ("sources", .arr (c.trees.map fun t => .obj
        [ ("path", .str t.path),
          ("types", .arr (t.types.map fun d => .str d.name)),
          ("code", .str (Source.printTypes t.types)) ])) ])

end Compilation

end ViewPress
