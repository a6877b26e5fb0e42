import ViewPress.Console.Screen
import ViewPress.Diagnostic.Report
import ViewPress.View.Loader

/-!
# Caches of views

Views that were compiled on demand are kept under their lookup key. In front of them
there may be the index of precompiled views. It is loaded at the first lookup and
never again, whether or not that succeeds; what it does not have is looked up among
the others.
-/

namespace ViewPress

/-- Why there is no view at a path. -/
inductive ViewError where
  | notFound (path : String)
  | template (path : String) (diagnostics : List Diagnostic)
  | compilation (path : String) (diagnostics : List Diagnostic)
  deriving DecidableEq, Repr

def ViewError.message (style : Style) : ViewError → String
  | .notFound path => "view `" ++ path ++ "` was not found"
  | .template path diagnostics =>
      "view `" ++ path ++ "` failed to generate:\n" ++ Diagnostic.report style diagnostics
  | .compilation path diagnostics =>
      "view `" ++ path ++ "` failed to compile:\n" ++ Diagnostic.report style diagnostics

/-- The state of the precompiled views. -/
inductive Precompiled where
  | unloaded
  | loaded (index : ViewIndex)
  | failed
  deriving Repr

namespace Precompiled

def index? : Precompiled → Option ViewIndex
  | .loaded index => some index
  | .unloaded | .failed => none

/-- Loads what is not loaded yet. -/
def load (loader : ModuleLoader) (d : Disk) : Precompiled → List Console.Event × Precompiled
  | .unloaded =>
      match loader.loadIndex d with
      | .ok index =>
          ([.log "runtime" ("loaded " ++ toString index.size ++ " precompiled view(s)")],
            .loaded index)
      | .error e =>
          ([.log "warn" ("precompiled views unavailable, compiling on demand: " ++ e.message)],
            .failed)
  | state => ([], state)

end Precompiled

/-- Views that were compiled on demand, by lookup key. -/
structure OnDemand where
  views : List (String × CompiledView) := []
  deriving Repr

namespace OnDemand

def get? (c : OnDemand) (path : String) : Option CompiledView :=
  c.views.lookup (ViewPath.lookupKey path)

def add (c : OnDemand) (path : String) (v : CompiledView) : OnDemand :=
  ⟨c.views ++ [(ViewPath.lookupKey path, v)]⟩

def size (c : OnDemand) : Nat :=
  c.views.length

end OnDemand

structure ViewCache where
  onDemand : OnDemand := {}
  precompiled : Option (ModuleLoader × Precompiled) := none
  deriving Repr

namespace ViewCache

/-- Puts precompiled views in front, unless there are some already. -/
def addPrecompiled (c : ViewCache) (loader : ModuleLoader) : ViewCache :=
  match c.precompiled with
  | none => { c with precompiled := some (loader, .unloaded) }
  | some _ => c

def status (c : ViewCache) : Option Precompiled :=
  c.precompiled.map (·.2)

def index? (c : ViewCache) : Option ViewIndex :=
  c.status.bind Precompiled.index?

/-- Makes sure that the precompiled views are loaded. -/
def load (c : ViewCache) (d : Disk) : List Console.Event × ViewCache :=
  match c.precompiled with
  | none => ([], c)
  | some (loader, state) =>
      let (events, state) := state.load loader d
      (events, { c with precompiled := some (loader, state) })

/-- The view that is at hand for a path. -/
def get? (c : ViewCache) (path : String) : Option CompiledView :=
  (c.index?.bind (·.get? path)).or (c.onDemand.get? path)

/-- The view for a path, compiled if it is not at hand. A view that cannot be compiled
leaves no trace. -/
def getOrAdd (c : ViewCache) (d : Disk) (path : String)
    (compile : String → Except ViewError CompiledView) :
    List Console.Event × ViewCache × Except ViewError CompiledView :=
  let (events, c) := c.load d
  match c.get? path with
  | some v => (events, c, .ok v)
  | none =>
      match compile path with
      | .ok v => (events, { c with onDemand := c.onDemand.add path v }, .ok v)
      | .error e => (events, c, .error e)

end ViewCache

end ViewPress
