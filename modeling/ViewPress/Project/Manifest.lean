import ViewPress.Json.Reader
import ViewPress.Module.Payload

/-!
# Dependency manifests

A manifest says what a published application was built for and which libraries it
depends on. It is read by the rules of module payloads.
-/

namespace ViewPress.Project

/-- A library, with the files that are needed to compile and to run, relative to the
manifest. -/
structure Library where
  name : String
  version : String := ""
  kind : String := ""
  compile : List String := []
  runtime : List String := []
  deriving DecidableEq, Repr

structure Manifest where
  framework : Option String := none
  libraries : List Library := []
  deriving DecidableEq, Repr

namespace Library

/-- A text field, which may be missing. -/
def textField? : Option Json → Option String
  | none => some ""
  | some j => j.str?

def pathsField? (j : Option Json) : Option (List String) := do
  (← Json.listField? 1 j).mapM Json.str?

def ofJson? (j : Json) : Option Library :=
  match j.record? ["name", "version", "type", "compile", "runtime"] with
  | some [some name, version, kind, compile, runtime] => do
      return { name := ← name.str?
               version := ← textField? version
               kind := ← textField? kind
               compile := ← pathsField? compile
               runtime := ← pathsField? runtime }
  | _ => none

end Library

namespace Manifest

/-- The framework of a manifest's target, which may be missing or null. -/
def target? : Option Json → Option (Option String)
  | none | some .null => some none
  | some j =>
      match j.record? ["framework"] with
      | some [some framework] => framework.str?.map some
      | _ => none

def ofJson? (j : Json) : Option Manifest :=
  match j.record? ["target", "libraries"] with
  | some [target, libraries] => do
      return { framework := ← target? target
               libraries := ← (← Json.listField? 1 libraries).mapM Library.ofJson? }
  | _ => none

def ofText? (text : String) : Option Manifest :=
  (Json.read? (Text.utf8 text)).bind ofJson?

end Manifest

end ViewPress.Project
