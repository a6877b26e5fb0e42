import ViewPress.CommandLine.Run

/-!
# The command

The outer layer takes a picture of the directories that a run looks at, runs on the
picture, and carries over what the run has changed. Files are listed first, and only
those that the run reads are read.
-/

namespace ViewPress.CommandLine

def namesOf (path : String) : List Name :=
  (Path.split (Text.utf8 path)).filter (· ≠ [])

/-- The path with all links followed, if it exists. -/
def realPath? (path : String) : IO (Option String) := do
  try return some (← IO.FS.realPath path).toString
  catch _ => return none

/-- Adds what is below a directory to a picture. Links are left out. -/
partial def survey (d : Disk) (dir : String) : IO Disk := do
  let mut d := d
  for entry in ← (← IO.FS.realPath dir).readDir do
    let path := entry.path.toString
    match (← entry.path.symlinkMetadata).type with
    | .dir => d ← survey { d with entries := (namesOf path, .directory) :: d.entries } path
    | .file => d := { d with entries := (namesOf path, .file []) :: d.entries }
    | .symlink | .other => pure ()
  return d

/-- Adds a directory that exists, and the way to it, to a picture. -/
def takeDirectory (d : Disk) (dir : Path) : IO Disk :=
  survey (d.makeDirectories (namesOf dir.display)) dir.display

/-- Adds a file that is not there yet, and the way to it, to a picture. -/
def takeFile (d : Disk) (path : String) : IO Disk := do
  match ← realPath? path with
  | none => return d
  | some path =>
      let names := namesOf path
      if (d.entry? names).isSome then return d
      else return (d.makeDirectories names.dropLast).put names (.file [])

/-- The directories that are not below another of them. -/
def outermost (dirs : List Path) : List Path :=
  dirs.eraseDups.filter fun p => !dirs.any fun q => q != p && q.isAbove p

/-- The directory at a path, or the one that its file is in. -/
def directory? (path : String) : IO (Option Path) := do
  match ← realPath? path with
  | none => return none
  | some real =>
      if ← (← IO.FS.realPath real).isDir then return some (Path.ofString real)
      else return (Path.ofString real).parent?

/-- Reads a file of a picture. -/
def fill (d : Disk) (path : Path) : IO Disk := do
  match d.find path with
  | .ok (names, .file _) =>
      let content ← IO.FS.readBinFile (Path.ofNames names).display
      return d.put names (.file content.data.toList)
  | _ => return d

/-- Reads everything that the build of a project reads. -/
def fillProject (d : Disk) (c : Project.Config) : IO Disk := do
  let mut d ← [c.entryModule, c.manifest, c.artifact, c.debugInfo].foldlM fill d
  if let .ok (some manifest) := Project.Manifest.load d c.manifest then
    for library in manifest.libraries do
      for file in library.compile do
        let path := (c.manifest.parent?.getD ⟨[]⟩).child file
        d ← fill (← takeFile d path.display) path
  let views := c.settings.views
  if let .ok files := Project.discover d c.root views.pattern views.exclude c.skipDirs then
    d ← (files.map (·.path)).foldlM fill d
  return d

/-- The picture for a run with these arguments. -/
def picture (home : String) (a : Arguments) : IO Disk := do
  let cwd := namesOf (← IO.currentDir).toString
  let project ← directory? (Project.expandHome home (a.project.getD "."))
  let publishDir ← directory? (a.publishFolder.getD ".")
  let mut d : Disk := { ({} : Disk).makeDirectories cwd with cwd }
  d ← (outermost (project.toList ++ publishDir.toList)).foldlM takeDirectory d
  match project with
  | none => return d
  | some root =>
      d ← fill d (root.child Project.fileName)
      match configure d home a with
      | .error _ => return d
      | .ok config => fillProject d config

/-- Writes the files that differ between two pictures, and removes those that are
gone. -/
def carryOver (before after : Disk) : IO Unit := do
  for (names, entry) in after.entries do
    if let .file content := entry then
      if before.entry? names != some entry then
        let path := Path.ofNames names
        let aside := (Disk.temporary path).display
        IO.FS.writeBinFile aside ⟨content.toArray⟩
        IO.FS.rename aside path.display
  for (names, entry) in before.entries do
    if entry != .directory && (after.entry? names).isNone then
      IO.FS.removeFile (Path.ofNames names).display

/-- The arguments with every path that exists in its real form. -/
def withRealPaths (home : String) (a : Arguments) : IO Arguments := do
  let real (path : String) : IO String := return (← realPath? path).getD path
  let project ← a.project.mapM fun p => do
    return (← realPath? (Project.expandHome home p)).getD p
  return { a with project, publishFolder := ← a.publishFolder.mapM real }

end ViewPress.CommandLine

open ViewPress in
def main (args : List String) : IO UInt32 := do
  match CommandLine.Arguments.read args with
  | .error refusal =>
      if refusal.isAnswer then
        IO.print refusal.message
        return 0
      else
        IO.eprint refusal.message
        return 2
  | .ok a =>
      let home := (← IO.getEnv "HOME").getD ""
      let a ← CommandLine.withRealPaths home a
      let interactive ← (← IO.getStdout).isTty
      let style := if interactive then Style.colored else .plain
      let disk ← CommandLine.picture home a
      let outcome := CommandLine.run disk home style a
      CommandLine.carryOver disk outcome.disk
      IO.print (Console.Terminal.output { interactive, style } {} outcome.events)
      IO.eprint outcome.errors
      return outcome.exitCode.toUInt32
