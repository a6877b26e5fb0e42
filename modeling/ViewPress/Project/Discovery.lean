import ViewPress.Disk
import ViewPress.Glob
import ViewPress.ViewPath

/-!
# The templates of a project

Every regular file below the project's root is a template if its relative path is
selected by a pattern and by none of the patterns to exclude. The order in which the
disk lists its entries does not matter: templates come sorted by relative path. Two
templates with the same lookup key could not be told apart later, so they are refused.
-/

namespace ViewPress.Project

structure TemplateFile where
  relative : String
  path : Path
  deriving DecidableEq, Repr

namespace TemplateFile

def key (t : TemplateFile) : String :=
  ViewPath.lookupKey t.relative

def le (a b : TemplateFile) : Bool :=
  decide (a.relative ≤ b.relative)

end TemplateFile

inductive DiscoveryError where
  | rootMissing (root : Path)
  | notUtf8 (path : Path)
  | collisions (groups : List (List String))
  deriving DecidableEq, Repr

def DiscoveryError.message : DiscoveryError → String
  | .rootMissing root =>
      "project root `" ++ root.display ++ "` does not exist or is not a directory"
  | .notUtf8 path => "template path `" ++ path.display ++ "` is not valid UTF-8"
  | .collisions groups =>
      toString groups.length ++ " template path(s) collide when compared case-insensitively:\n"
        ++ "\n".intercalate (groups.map fun group => "  " ++ " <-> ".intercalate group)

/-- Files that are never templates. -/
def ignoredName : Name := Text.utf8 ".DS_Store"

/-- Whether a path to skip is met on the way from `here` along `names`. -/
def isSkipped (skip : List Path) (here : Path) : List Name → Bool
  | [] => skip.any here.same
  | n :: names => skip.any here.same || isSkipped skip (here.join ⟨n⟩) names

/-- The relative names of the regular files below the root that are neither skipped
nor ignored. -/
def candidates (d : Disk) (root : Path) (names : List Name) (skip : List Path) :
    List (List Name) :=
  (d.below names).filterMap fun
    | (rest, .file _) =>
        if rest.getLast? != some ignoredName && !isSkipped skip root rest then some rest
        else none
    | (_, .directory) => none

/-- The file at relative names below the root, if they are text. -/
def templateFile (root : Path) (names : List Name) : Except DiscoveryError TemplateFile :=
  let path := names.foldl (fun p n => p.join ⟨n⟩) root
  match names.mapM Text.ofUtf8? with
  | some parts => .ok { relative := "/".intercalate parts, path }
  | none => .error (.notUtf8 path)

def isSelected (pattern : String) (exclude : List String) (t : TemplateFile) : Bool :=
  Glob.selects pattern t.relative && !exclude.any (Glob.selects · t.relative)

/-- The relative paths that share their lookup key with another, grouped by key, in
the order of the keys. -/
def collisions (files : List TemplateFile) : List (List String) :=
  let keys := ((files.map TemplateFile.key).eraseDups).mergeSort
  let groups := keys.map fun key => (files.filter (·.key == key)).map TemplateFile.relative
  groups.filter (1 < ·.length)

/-- Finds the templates below a root. -/
def discover (d : Disk) (root : Path) (pattern : String) (exclude : List String)
    (skip : List Path) : Except DiscoveryError (List TemplateFile) := do
  match d.find root with
  | .ok (names, .directory) => do
      let found ← (candidates d root names skip).mapM (templateFile root)
      let files := (found.filter (isSelected pattern exclude)).mergeSort TemplateFile.le
      match collisions files with
      | [] => return files
      | groups => throw (.collisions groups)
  | _ => throw (.rootMissing root)

end ViewPress.Project
