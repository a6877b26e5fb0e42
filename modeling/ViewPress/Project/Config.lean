import ViewPress.Disk
import ViewPress.Module.Basic
import ViewPress.Project.Settings
import ViewPress.Text.Blank

/-!
# Project configuration

The settings of a project together with where it is and what is being published.
The publish target comes from outside and never from the project file.
-/

namespace ViewPress.Project

structure Target where
  publishDir : Path := ⟨[]⟩
  framework : String := ""
  configuration : String := "Debug"
  deriving DecidableEq, Repr

structure Config where
  settings : Settings := {}
  root : Path := ⟨[]⟩
  configPath : Path := ⟨[]⟩
  target : Target := {}
  deriving DecidableEq, Repr

inductive ValidationError where
  | emptyPattern
  | noFramework
  | undeclaredFramework (framework : String) (declared : List String)
  | noOutputName
  | publishDirMissing (path : Path)
  deriving DecidableEq, Repr

inductive ConfigError where
  | io (path : Path) (error : IoError)
  | malformed
  | projectMissing (path : Path)
  | validation (error : ValidationError)
  deriving DecidableEq, Repr

def ValidationError.message : ValidationError → String
  | .emptyPattern => "[views.pattern] must not be empty"
  | .noFramework => "a target framework is required"
  | .undeclaredFramework framework declared =>
      "framework `" ++ framework ++ "` is not declared in [frameworks] (declared: "
        ++ ", ".intercalate declared ++ ")"
  | .noOutputName => "cannot derive an output name; set [project.name]"
  | .publishDirMissing path => "publish folder `" ++ path.display ++ "` does not exist"

def ConfigError.message : ConfigError → String
  | .io path _ => "IO error when reading `" ++ path.display ++ "`"
  | .malformed => "Config file parsing error"
  | .projectMissing path => "project path `" ++ path.display ++ "` does not exist"
  | .validation e => "Config validation error: " ++ e.message

def fileName : String := "project.toml"

/-! ## Loading -/

/-- Replaces a tilde at the start of a path by the home directory, where a slash or
nothing follows it. -/
def expandHome (home : String) (path : String) : String :=
  match path.toList with
  | ['~'] => home
  | '~' :: '/' :: rest => home ++ String.ofList ('/' :: rest)
  | _ => path

/-- The absolute form of a path: canonical if it exists, and otherwise only put
behind the working directory. -/
def normalize (d : Disk) (p : Path) : Path :=
  match d.canonical p with
  | .ok q => q
  | .error _ => if p.isAbsolute then p else (Path.ofNames d.cwd).join p

/-- The directory of a project, which is given by its directory or by a file in it. -/
def findRoot (d : Disk) (home : String) (project : Option Path) : Except ConfigError Path :=
  let given := (project.map Path.display).getD ""
  let path := Path.ofString (expandHome home (if given.isEmpty then "." else given))
  if !d.exists? path then .error (.projectMissing path)
  else if d.isFile path then .ok (normalize d (path.parent?.getD ⟨[]⟩))
  else .ok (normalize d path)

def readSettings (d : Disk) (path : Path) : Except ConfigError Settings :=
  if d.isFile path then do
    let text ← (d.readText path).mapError (.io path)
    match Settings.ofText? text with
    | some settings => return settings
    | none => throw .malformed
  else return {}

/-- A project without a name is called like its directory. -/
def Settings.named (s : Settings) (root : Path) : Settings :=
  if s.project.name.isEmpty then
    { s with project := { s.project with name := Text.lossy (root.fileName?.getD []) } }
  else s

namespace Config

/-- Loads the configuration of a project. A project needs no file. -/
def load (d : Disk) (home : String) (project : Option Path) : Except ConfigError Config := do
  let root ← findRoot d home project
  let configPath := root.child fileName
  let settings ← readSettings d configPath
  return { settings := settings.named root, root, configPath }

def withTarget (c : Config) (d : Disk) (t : Target) : Config :=
  { c with target := { t with publishDir := normalize d t.publishDir } }

/-! ## What follows from the target -/

def framework? (c : Config) : Option FrameworkSection :=
  c.settings.frameworks.lookup c.target.framework

def configuration? (c : Config) : Option ConfigurationSection :=
  c.settings.configurations.lookup c.target.configuration

/-- The name of the published application's files, without an extension. The
configuration decides before the framework, and that before the project. -/
def outputName (c : Config) : String :=
  (c.configuration?.bind (·.outputName)
    |>.or (c.framework?.bind (·.outputName))
    |>.or c.settings.project.outputName).getD c.settings.project.name

/-- Whether the application is published as a library. Desktop frameworks always
publish executables. -/
def isPortable (c : Config) : Bool :=
  c.settings.project.portable && !c.framework?.any (·.desktop)

/-- A publish folder inside the project, which holds no templates. -/
def skipDirs (c : Config) : List Path :=
  if !c.target.publishDir.same c.root && c.root.isAbove c.target.publishDir then
    [c.target.publishDir]
  else []

def published (c : Config) (name extension : String) : Path :=
  c.target.publishDir.child (name ++ "." ++ extension)

/-- The application's own module. -/
def entryModule (c : Config) : Path :=
  c.published c.outputName
    (if c.isPortable then Module.libraryExtension else Module.executableExtension)

/-- The list of the libraries that the application depends on. -/
def manifest (c : Config) : Path :=
  c.published c.outputName "deps.json"

/-- The module of the precompiled views. -/
def artifact (c : Config) : Path :=
  c.published Module.artifactName Module.libraryExtension

/-- What is known about the sources of the precompiled views. -/
def debugInfo (c : Config) : Path :=
  c.published Module.artifactName "debug.json"

/-- Checks a configuration against its target. -/
def validate (c : Config) (d : Disk) : Except ValidationError Unit := do
  if c.settings.views.pattern.toList.all Text.isBlank then throw .emptyPattern
  if c.target.framework.isEmpty then throw .noFramework
  if !c.settings.frameworks.isEmpty && c.framework?.isNone then
    throw (.undeclaredFramework c.target.framework (c.settings.frameworks.map (·.1)))
  if c.outputName.isEmpty then throw .noOutputName
  if !d.isDirectory c.target.publishDir then throw (.publishDirMissing c.target.publishDir)

end Config

end ViewPress.Project
