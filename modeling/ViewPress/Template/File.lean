import ViewPress.Disk
import ViewPress.Template.Unit

/-!
# Template files

A directory can be opened like a file; only reading it fails.
-/

namespace ViewPress.GeneratedUnit

/-- The unit of a template that has been opened. -/
def ofEntry (application path : String) : Entry → GeneratedUnit
  | .file content => ofBytes application path content
  | .directory =>
      failed path [{ message := "cannot read template `" ++ path ++ "`: "
        ++ IoError.isADirectory.message }]

/-- The unit of the template file at `location`. -/
def ofFile (application path : String) (d : Disk) (location : Path) : GeneratedUnit :=
  match d.find location with
  | .ok (_, e) => ofEntry application path e
  | .error e =>
      failed path [{ message := "cannot open template `" ++ path ++ "`: " ++ e.message }]

end ViewPress.GeneratedUnit
