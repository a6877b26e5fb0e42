import ViewPress.Compilation.Compile
import ViewPress.Project.Config
import ViewPress.Project.Discovery
import ViewPress.Project.References
import ViewPress.Template.File

/-!
# Building the views of a project

A build turns all templates of a project into one module in the publish folder, with
debug information beside it. Nothing is written before everything has been compiled.
The module is written last, so the debug information of a build that fails then is
removed again.
-/

namespace ViewPress.Project

inductive BuildError where
  | discovery (error : DiscoveryError)
  | generation (failed : List GeneratedUnit)
  | references (error : ReferenceError)
  | compilation (diagnostics : List Diagnostic)
  | write (path : Path) (error : ModuleError)
  deriving Repr

def BuildError.message (style : Style) : BuildError → String
  | .discovery e => e.message
  | .generation failed =>
      toString failed.length ++ " template(s) failed to generate:\n"
        ++ Diagnostic.report style (failed.flatMap GeneratedUnit.diagnostics)
  | .references _ => "cannot resolve compile references"
  | .compilation diagnostics =>
      "compilation failed with " ++ toString diagnostics.length ++ " error(s):\n"
        ++ Diagnostic.report style diagnostics
  | .write path _ => "cannot write `" ++ path.display ++ "`"

structure BuildReport where
  artifact : Path
  debugInfo : Option Path
  views : Nat
  fingerprint : String
  deriving DecidableEq, Repr

/-- Writes a file of the publish folder as a whole. -/
def publishFile (d : Disk) (path : Path) (content : List UInt8) : Disk × Except BuildError Unit :=
  let (d, outcome) := d.replace path content
  (d, outcome.mapError fun e => .write path (.io path e))

/-- Removes a file that an earlier build may have left. -/
def removeStale (d : Disk) (path : Path) : Disk × Except BuildError Unit :=
  match d.removeFile path with
  | .ok d => (d, .ok ())
  | .error .notFound => (d, .ok ())
  | .error e => (d, .error (.write path (.io path e)))

/-- Writes the debug information, or removes it if there is to be none. -/
def publishDebug (d : Disk) (c : Config) (compiled : Compiled) : Disk × Except BuildError Unit :=
  if c.settings.views.debugInfo then publishFile d c.debugInfo (Text.utf8 compiled.debug)
  else removeStale d c.debugInfo

/-- Writes what a build has compiled. -/
def publish (d : Disk) (c : Config) (compiled : Compiled) : Disk × Except BuildError Unit :=
  match publishDebug d c compiled with
  | (d, .error e) => (d, .error e)
  | (d, .ok ()) =>
      match publishFile d c.artifact compiled.binary with
      | (d, .ok ()) => (d, .ok ())
      | (d, .error e) =>
          (if c.settings.views.debugInfo then d.tryRemove c.debugInfo else d, .error e)

/-- The unit of every template, in order. -/
def generateUnits (d : Disk) (c : Config) (files : List TemplateFile) : List GeneratedUnit :=
  files.map fun t => GeneratedUnit.ofFile c.settings.project.name t.relative d t.path

/-- Everything before the first write: what is compiled, and what is said on the way. -/
def compileProject (d : Disk) (c : Config) :
    List Console.Event × Except BuildError Compiled :=
  match discover d c.root c.settings.views.pattern c.settings.views.exclude c.skipDirs with
  | .error e => ([], .error (.discovery e))
  | .ok files =>
      let units := generateUnits d c files
      let (warnings, references) :=
        resolveReferences d c.entryModule c.manifest c.target.framework
      let events : List Console.Event :=
        [.log "discover" ("found " ++ toString files.length ++ " template(s) in "
            ++ c.root.display), .start "generate" files.length]
        ++ List.replicate files.length .advance ++ warnings ++ [.finish]
      match units.filter (!·.success), references with
      | [], .ok references =>
          let compiled := compileUnits Module.artifactName units
            (references.map (·.load d))
          (events ++ [.log "compile" ("compiling " ++ toString units.length
              ++ " view(s) against " ++ toString references.length ++ " reference(s)")],
            compiled.mapError .compilation)
      | [], .error e => (events, .error (.references e))
      | failed, _ => (events, .error (.generation failed))

structure BuildOutcome where
  disk : Disk
  events : List Console.Event
  result : Except BuildError BuildReport

def Config.report (c : Config) (m : Module) : BuildReport where
  artifact := c.artifact
  debugInfo := if c.settings.views.debugInfo then some c.debugInfo else none
  views := m.taggedTypes.length
  fingerprint := m.fingerprint

/-- Builds the views of a project. -/
def build (d : Disk) (c : Config) : BuildOutcome :=
  match compileProject d c with
  | (events, .error e) => { disk := d, events, result := .error e }
  | (events, .ok compiled) =>
      match publish d c compiled with
      | (disk, .error e) => { disk, events, result := .error e }
      | (disk, .ok ()) =>
          let report := c.report compiled.module
          let done := "precompiled " ++ toString report.views ++ " view(s) into "
            ++ report.artifact.display
          { disk, events := events ++ [.log "done" done], result := .ok report }

end ViewPress.Project
