import ViewPress.Console.Screen
import ViewPress.Module.File
import ViewPress.Project.Manifest
import ViewPress.Text.Lowercase

/-!
# Compile references

Templates refer to the types of the application and of its libraries. The references
of a build are the application's own module, then the compile files of its manifest
in order, then the built-in module. Paths that differ in case only are the same
reference, of which the first is kept.
-/

namespace ViewPress.Project

inductive Reference where
  | file (path : Path)
  | host
  deriving DecidableEq, Repr

inductive ReferenceError where
  | entryMissing (path : Path)
  | entryInvalid (path : Path) (error : ModuleError)
  | manifestUnreadable (path : Path) (error : IoError)
  | manifestMalformed (path : Path)
  | libraryUnresolved (library : Library) (path : Path)
  deriving DecidableEq, Repr

def ReferenceError.message : ReferenceError → String
  | .entryMissing path =>
      "application module `" ++ path.display ++ "` not found in the publish folder"
  | .entryInvalid path _ => "application module `" ++ path.display ++ "` cannot be loaded"
  | .manifestUnreadable path _ => "cannot read dependency manifest `" ++ path.display ++ "`"
  | .manifestMalformed path => "dependency manifest `" ++ path.display ++ "` is malformed"
  | .libraryUnresolved library path =>
      "library `" ++ library.name ++ "` " ++ library.version ++ ": compile reference `"
        ++ path.display ++ "` does not exist"

/-- Reads a manifest, which need not exist. -/
def Manifest.load (d : Disk) (path : Path) : Except ReferenceError (Option Manifest) :=
  match d.readText path with
  | .error .notFound => .ok none
  | .error e => .error (.manifestUnreadable path e)
  | .ok text =>
      match ofText? text with
      | some manifest => .ok (some manifest)
      | none => .error (.manifestMalformed path)

/-- What is said before a manifest is followed. -/
def manifestWarnings (path : Path) (framework : String) : Option Manifest → List Console.Event
  | none =>
      [.log "warn" ("dependency manifest `" ++ path.display
        ++ "` not found, compiling against the application module only")]
  | some manifest =>
      match manifest.framework with
      | some target =>
          if target == framework then []
          else [.log "warn" ("dependency manifest targets `" ++ target ++ "`, building for `"
            ++ framework ++ "`")]
      | none => []

/-- The compile files of a library below the manifest's directory. -/
def Library.files (d : Disk) (base : Path) (library : Library) :
    Except ReferenceError (List Path) :=
  library.compile.mapM fun file =>
    let path := base.child file
    if d.isFile path then .ok path else .error (.libraryUnresolved library path)

def Manifest.files (d : Disk) (base : Path) (manifest : Manifest) :
    Except ReferenceError (List Path) := do
  return (← manifest.libraries.mapM (·.files d base)).flatten

def caseKey (p : Path) : String :=
  Text.lowercase p.display

/-- Drops every path whose key is among `seen` or was had before. -/
def dropRepeated (seen : List String) : List Path → List Path
  | [] => []
  | p :: ps =>
      if seen.contains (caseKey p) then dropRepeated seen ps
      else p :: dropRepeated (caseKey p :: seen) ps

/-- The references of a build, and what is said on the way to them. -/
def resolveReferences (d : Disk) (entry manifestPath : Path) (framework : String) :
    List Console.Event × Except ReferenceError (List Reference) :=
  if !d.isFile entry then ([], .error (.entryMissing entry))
  else
    match Module.load d entry with
    | .error e => ([], .error (.entryInvalid entry e))
    | .ok _ =>
        match Manifest.load d manifestPath with
        | .error e => ([], .error e)
        | .ok manifest =>
            let base := manifestPath.parent?.getD ⟨[]⟩
            (manifestWarnings manifestPath framework manifest,
              ((manifest.getD {}).files d base).map fun files =>
                (dropRepeated [] (entry :: files)).map .file ++ [.host])

/-- The module of a reference, or what is said when it cannot be loaded. -/
def Reference.load (d : Disk) : Reference → Except Diagnostic Module
  | .file path => (Module.load d path).mapError (referenceDiagnostic path)
  | .host => .ok Module.host

end ViewPress.Project
