import ViewPress.Compilation.Check
import ViewPress.Compilation.Emission
import ViewPress.Compilation.Tagging
import ViewPress.Module.Format
import ViewPress.Source.Parser
import ViewPress.Template.Unit

/-!
# Compiling units

Generated units are parsed, checked, tagged, checked again and emitted as one
module. Any diagnostic on the way means that there is no module.
-/

namespace ViewPress

/-- What a successful compilation produces. -/
structure Compiled where
  module : Module
  binary : List UInt8
  debug : String

/-- The values and the errors of a list of outcomes. -/
def partitionOutcomes {ε α : Type} : List (Except ε α) → List α × List ε
  | [] => ([], [])
  | .ok a :: rest =>
      let (as, es) := partitionOutcomes rest
      (a :: as, es)
  | .error e :: rest =>
      let (as, es) := partitionOutcomes rest
      (as, e :: es)

/-- Checks, tags and emits parsed trees. -/
def Compilation.compile (c : Compilation) (name : String) : Except (List Diagnostic) Compiled :=
  match c.diagnostics with
  | [] =>
      let tagged := c.tagged
      match tagged.diagnostics with
      | [] => do
          let module ← tagged.emit name
          return { module, binary := module.encode, debug := tagged.debugInfo name }
      | problems => .error problems
  | problems => .error problems

/-- The compilation of units against references, each a module or the diagnostic of why
it cannot be loaded. Units that failed to generate are left out. -/
def Compilation.ofUnits (units : List GeneratedUnit)
    (references : List (Except Diagnostic Module)) : Except (List Diagnostic) Compilation :=
  let (trees, faults) := partitionOutcomes
    ((units.filter GeneratedUnit.success).map fun u => Source.parse u.path u.code)
  let (modules, missing) := partitionOutcomes references
  match faults ++ missing with
  | [] => .ok { trees, references := modules }
  | problems => .error problems

/-- Compiles units against references. -/
def compileUnits (name : String) (units : List GeneratedUnit)
    (references : List (Except Diagnostic Module)) : Except (List Diagnostic) Compiled := do
  (← Compilation.ofUnits units references).compile name

end ViewPress
