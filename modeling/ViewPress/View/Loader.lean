import ViewPress.Module.File
import ViewPress.View.Index

/-!
# Loading modules by name

A module is looked for in a list of directories, as a library before as an
executable, and the first file found has to be the module of that name.
-/

namespace ViewPress

structure ModuleLoader where
  directories : List Path
  deriving DecidableEq, Repr

inductive LoadError where
  | notFound (name : String) (searched : List Path)
  | invalid (path : Path) (error : ModuleError)
  | otherModule (path : Path) (expected found : String)
  | duplicate (error : DuplicatePath)
  deriving DecidableEq, Repr

def LoadError.message : LoadError → String
  | .notFound name searched =>
      let places :=
        if searched.isEmpty then "no directories"
        else ", ".intercalate (searched.map fun p => "`" ++ p.display ++ "`")
      "module `" ++ name ++ "` not found (searched " ++ places ++ ")"
  | .invalid path _ => "module `" ++ path.display ++ "` is unreadable or stale"
  | .otherModule path expected found =>
      "module `" ++ path.display ++ "` identifies as `" ++ found ++ "`, expected `" ++ expected
        ++ "`"
  | .duplicate e => e.message

namespace ModuleLoader

/-- The files that may hold a module, in the order in which they are tried. -/
def places (l : ModuleLoader) (name : String) : List Path :=
  l.directories.flatMap fun dir =>
    [Module.libraryExtension, Module.executableExtension].map fun extension =>
      dir.child (name ++ "." ++ extension)

def locate (l : ModuleLoader) (d : Disk) (name : String) : Option Path :=
  (l.places name).find? d.isFile

def load (l : ModuleLoader) (d : Disk) (name : String) : Except LoadError Module := do
  match l.locate d name with
  | none => throw (.notFound name l.directories)
  | some path =>
      let m ← (Module.load d path).mapError (.invalid path)
      if m.name == name then return m else throw (.otherModule path name m.name)

/-- The index of the precompiled views. -/
def loadIndex (l : ModuleLoader) (d : Disk) : Except LoadError ViewIndex := do
  (ViewIndex.build (← l.load d Module.artifactName)).mapError .duplicate

end ModuleLoader

end ViewPress
