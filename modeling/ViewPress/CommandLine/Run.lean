import ViewPress.CommandLine.Arguments
import ViewPress.Project.Build

/-!
# Running the command line

A run loads the project, checks it against the target and builds it. What goes wrong
is told with its causes, from the outermost to the innermost.
-/

namespace ViewPress.CommandLine

open Project

/-- The messages of an error and its causes. -/
def moduleChain : ModuleError → List String
  | .io path e => [(ModuleError.io path e).message, e.message]
  | .format .malformed => [FormatError.malformed.message, "not a description of a module"]
  | .format e => [e.message]

def referenceChain (e : ReferenceError) : List String :=
  match e with
  | .entryInvalid _ cause => e.message :: moduleChain cause
  | .manifestUnreadable _ cause => [e.message, cause.message]
  | .manifestMalformed _ => [e.message, "not a description of dependencies"]
  | .entryMissing _ | .libraryUnresolved .. => [e.message]

def configChain (e : ConfigError) : List String :=
  match e with
  | .io _ cause => [e.message, cause.message]
  | .malformed => [e.message, "not a description of a project"]
  | .projectMissing _ | .validation _ => [e.message]

def buildChain (style : Style) (e : BuildError) : List String :=
  match e with
  | .references cause => e.message style :: referenceChain cause
  | .write _ cause => e.message style :: moduleChain cause
  | .discovery _ | .generation _ | .compilation _ => [e.message style]

/-- What a run leaves behind. -/
structure Outcome where
  disk : Disk
  events : List Console.Event
  errors : String
  exitCode : Nat

def failure (style : Style) (disk : Disk) (events : List Console.Event) (chain : List String) :
    Outcome where
  disk := disk
  events := events
  errors := style.paint .brightRed "[error]" ++ " " ++ ": ".intercalate chain ++ "\n"
  exitCode := 1

def Arguments.target (a : Arguments) : Target where
  publishDir := Path.ofString (a.publishFolder.getD "")
  framework := a.framework.getD ""
  configuration := a.configuration

/-- The configuration that the arguments ask for. -/
def configure (d : Disk) (home : String) (a : Arguments) : Except ConfigError Config := do
  let config ← Config.load d home (a.project.map Path.ofString)
  let config := config.withTarget d a.target
  (config.validate d).mapError .validation
  return config

/-- What is said after a build. -/
def reportEvents (r : BuildReport) : List Console.Event :=
  (r.debugInfo.map fun path =>
    Console.Event.log "done" ("debug info written to " ++ path.display)).toList
    ++ [.log "done" ("fingerprint " ++ r.fingerprint)]

/-- Runs a build. Without a target there is only help. -/
def run (d : Disk) (home : String) (style : Style) (a : Arguments) : Outcome :=
  if !a.hasTarget then { disk := d, events := [.print helpText], errors := "", exitCode := 2 }
  else
    match configure d home a with
    | .error e => failure style d [] (configChain e)
    | .ok config =>
        let outcome := build d config
        match outcome.result with
        | .error e => failure style outcome.disk outcome.events (buildChain style e)
        | .ok report =>
            { disk := outcome.disk
              events := outcome.events ++ reportEvents report
              errors := ""
              exitCode := 0 }

end ViewPress.CommandLine
