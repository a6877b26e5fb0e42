import ViewPress.Diagnostic.Report
import ViewPress.Disk
import ViewPress.Module.Format

/-!
# Modules on disk
-/

namespace ViewPress

/-- Why a module cannot be read or written. -/
inductive ModuleError where
  | io (path : Path) (error : IoError)
  | format (error : FormatError)
  deriving DecidableEq, Repr

def ModuleError.message : ModuleError → String
  | .io path _ => "cannot access module `" ++ path.display ++ "`"
  | .format error => error.message

/-- What is said about a reference that cannot be loaded. -/
def referenceDiagnostic (path : Path) (e : ModuleError) : Diagnostic :=
  { message := "cannot load reference `" ++ path.display ++ "`: " ++ e.message }

namespace Module

/-- Reads a module file. -/
def load (d : Disk) (p : Path) : Except ModuleError Module := do
  let bytes ← (d.read p).mapError (.io p)
  (decode bytes).mapError .format

/-- Writes a module file as a whole. -/
def save (d : Disk) (p : Path) (m : Module) : Disk × Except ModuleError Unit :=
  let (d, outcome) := d.replace p m.encode
  (d, outcome.mapError (.io p))

end Module

end ViewPress
