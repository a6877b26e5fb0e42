import ViewPress.Toml.Reader

/-!
# Project settings

The sections of a project file. Every setting has a default, and a setting that is
not known is an error. A section may also be an array of its settings in order.
-/

namespace ViewPress.Project

structure ProjectSection where
  name : String := ""
  outputName : Option String := none
  portable : Bool := true
  deriving DecidableEq, Repr

structure ViewsSection where
  pattern : String := "**/*.tpl"
  exclude : List String := ["target/**", "node_modules/**", ".git/**"]
  debugInfo : Bool := true
  deriving DecidableEq, Repr

structure FrameworkSection where
  desktop : Bool := false
  outputName : Option String := none
  deriving DecidableEq, Repr

structure ConfigurationSection where
  outputName : Option String := none
  deriving DecidableEq, Repr

/-- What a project file says. Frameworks and configurations are in bytewise order of
their names. -/
structure Settings where
  project : ProjectSection := {}
  views : ViewsSection := {}
  frameworks : List (String × FrameworkSection) := []
  configurations : List (String × ConfigurationSection) := []
  deriving DecidableEq, Repr

/-- The settings of a section in the order of their names, with `none` for those
that are missing. -/
def fields? (names : List String) : Toml → Option (List (Option Toml))
  | .table _ entries =>
      if entries.all fun e => names.contains e.1 then
        some (names.map fun name => entries.lookup name)
      else none
  | .array items | .tables items =>
      some ((items.take names.length).map some
        ++ List.replicate (names.length - items.length) none)
  | _ => none

def string? : Toml → Option String
  | .str s => some s
  | _ => none

def bool? : Toml → Option Bool
  | .bool b => some b
  | _ => none

def strings? : Toml → Option (List String)
  | .array items | .tables items => items.mapM string?
  | _ => none

/-- A setting, or its default if it is missing. -/
def setting {α : Type} (read : Toml → Option α) (dflt : α) : Option Toml → Option α
  | none => some dflt
  | some v => read v

/-- A setting that has no value if it is missing. -/
def optional {α : Type} (read : Toml → Option α) : Option Toml → Option (Option α)
  | none => some none
  | some v => (read v).map some

def ProjectSection.ofToml? (v : Toml) : Option ProjectSection := do
  match ← fields? ["name", "output_name", "portable"] v with
  | [name, outputName, portable] =>
      return { name := ← setting string? "" name
               outputName := ← optional string? outputName
               portable := ← setting bool? true portable }
  | _ => none

def ViewsSection.ofToml? (v : Toml) : Option ViewsSection := do
  match ← fields? ["pattern", "exclude", "debug_info"] v with
  | [pattern, exclude, debugInfo] =>
      let dflt : ViewsSection := {}
      return { pattern := ← setting string? dflt.pattern pattern
               exclude := ← setting strings? dflt.exclude exclude
               debugInfo := ← setting bool? dflt.debugInfo debugInfo }
  | _ => none

def FrameworkSection.ofToml? (v : Toml) : Option FrameworkSection := do
  match ← fields? ["desktop", "output_name"] v with
  | [desktop, outputName] =>
      return { desktop := ← setting bool? false desktop
               outputName := ← optional string? outputName }
  | _ => none

def ConfigurationSection.ofToml? (v : Toml) : Option ConfigurationSection := do
  match ← fields? ["output_name"] v with
  | [outputName] => return { outputName := ← optional string? outputName }
  | _ => none

/-- Sections by name, sorted. -/
def sections? {α : Type} (read : Toml → Option α) : Toml → Option (List (String × α))
  | .table _ entries => do
      let sections ← entries.mapM fun (name, v) => (read v).map (name, ·)
      return sections.mergeSort fun a b => decide (a.1 ≤ b.1)
  | _ => none

namespace Settings

def ofEntries? (entries : Toml.Entries) : Option Settings := do
  match ← fields? ["project", "views", "frameworks", "configurations"]
      (.table .header entries) with
  | [project, views, frameworks, configurations] =>
      return { project := ← setting ProjectSection.ofToml? {} project
               views := ← setting ViewsSection.ofToml? {} views
               frameworks := ← setting (sections? FrameworkSection.ofToml?) [] frameworks
               configurations :=
                 ← setting (sections? ConfigurationSection.ofToml?) [] configurations }
  | _ => none

/-- The settings of a project file. -/
def ofText? (text : String) : Option Settings :=
  (Toml.read? text).bind ofEntries?

end Settings

end ViewPress.Project
