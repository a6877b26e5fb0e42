import ViewPress.Path

/-!
# Disks

A disk is a finite tree of directories and files, given as a list of entries by
absolute name, and the directory that relative paths start at. Every operation is a
function of it. A disk may refuse an operation on an entry for a reason of its own,
such as being full; `refuses` says which.

Names are compared byte for byte, and there are no links.
-/

namespace ViewPress

/-- Why an operation on a disk fails. -/
inductive IoError where
  | notFound
  | notADirectory
  | isADirectory
  | invalidData
  | refused (reason : String)
  deriving DecidableEq, Repr

def IoError.message : IoError → String
  | .notFound => "No such file or directory (os error 2)"
  | .notADirectory => "Not a directory (os error 20)"
  | .isADirectory => "Is a directory (os error 21)"
  | .invalidData => "stream did not contain valid UTF-8"
  | .refused reason => reason

inductive Entry where
  | directory
  | file (content : List UInt8)
  deriving DecidableEq, Repr

/-- The operations that change a disk. -/
inductive Operation where
  | create
  | write
  | rename
  | remove
  deriving DecidableEq, Repr

structure Disk where
  entries : List (List Name × Entry) := []
  cwd : List Name := []
  refuses : Operation → List Name → Option IoError := fun _ _ => none

namespace Disk

/-- The entry of an absolute name. The root is always there. -/
def entry? (d : Disk) (names : List Name) : Option Entry :=
  if names.isEmpty then some .directory else d.entries.lookup names

/-- The disk with an entry in place of what had its name. -/
def put (d : Disk) (names : List Name) (e : Entry) : Disk :=
  { d with entries := (names, e) :: d.entries.filter (·.1 != names) }

def erase (d : Disk) (names : List Name) : Disk :=
  { d with entries := d.entries.filter (·.1 != names) }

def asDirectory (d : Disk) (names : List Name) : Except IoError Unit :=
  match d.entry? names with
  | some .directory => .ok ()
  | some (.file _) => .error .notADirectory
  | none => .error .notFound

/-- Walks from a directory. The last name need not exist. -/
def walk (d : Disk) (here : List Name) : List Name → Except IoError (List Name)
  | [] => .ok here
  | n :: rest => do
      d.asDirectory here
      if n = Path.dot then d.walk here rest
      else if n = Path.dotDot then d.walk here.dropLast rest
      else d.walk (here ++ [n]) rest

/-- The absolute name that a path stands for. -/
def resolve (d : Disk) (p : Path) : Except IoError (List Name) :=
  if p.bytes.isEmpty || p.bytes.contains 0 then .error .notFound
  else d.walk (if p.isAbsolute then [] else d.cwd) p.steps

def find (d : Disk) (p : Path) : Except IoError (List Name × Entry) := do
  let names ← d.resolve p
  match d.entry? names with
  | some e => return (names, e)
  | none => .error .notFound

def isFile (d : Disk) (p : Path) : Bool :=
  match d.find p with
  | .ok (_, .file _) => true
  | _ => false

def isDirectory (d : Disk) (p : Path) : Bool :=
  match d.find p with
  | .ok (_, .directory) => true
  | _ => false

def exists? (d : Disk) (p : Path) : Bool :=
  (d.find p).toBool

def read (d : Disk) (p : Path) : Except IoError (List UInt8) := do
  match ← d.find p with
  | (_, .file content) => return content
  | (_, .directory) => .error .isADirectory

def readText (d : Disk) (p : Path) : Except IoError String := do
  match Text.ofUtf8? (← d.read p) with
  | some text => return text
  | none => .error .invalidData

/-- The absolute path of what exists at a path. -/
def canonical (d : Disk) (p : Path) : Except IoError Path := do
  return Path.ofNames (← d.find p).1

def refusal (d : Disk) (op : Operation) (names : List Name) : Except IoError Unit :=
  match d.refuses op names with
  | some e => .error e
  | none => .ok ()

/-- Opens a file for writing and empties it, or creates it. -/
def create (d : Disk) (p : Path) : Except IoError (List Name × Disk) := do
  let names ← d.resolve p
  d.refusal .create names
  match d.entry? names with
  | some .directory => .error .isADirectory
  | _ => return (names, d.put names (.file []))

/-- Moves a file over another, or to a new name. -/
def rename (d : Disk) (source target : Path) : Except IoError Disk := do
  let (names, e) ← d.find source
  if target.bytes.getLast? == some Path.slash then .error .notADirectory
  let goal ← d.resolve target
  d.refusal .rename goal
  match d.entry? goal with
  | some .directory => .error .isADirectory
  | _ => return (d.erase names).put goal e

def removeFile (d : Disk) (p : Path) : Except IoError Disk := do
  match ← d.find p with
  | (_, .directory) => .error .isADirectory
  | (names, .file _) => do
      d.refusal .remove names
      return d.erase names

/-- The disk after an attempt to remove a file, whether or not it went well. -/
def tryRemove (d : Disk) (p : Path) : Disk :=
  match d.removeFile p with
  | .ok d => d
  | .error _ => d

def temporary (p : Path) : Path :=
  p.withFileName ((p.fileName?.getD []) ++ Text.utf8 ".tmp")

/-- Fills a temporary sibling and moves it over the target. -/
def replaceSteps (d : Disk) (p : Path) (content : List UInt8) : Disk × Except IoError Unit :=
  match d.create (temporary p) with
  | .error e => (d, .error e)
  | .ok (names, d) =>
      match d.refusal .write names with
      | .error e => (d, .error e)
      | .ok () =>
          let d := d.put names (.file content)
          match d.rename (temporary p) p with
          | .error e => (d, .error e)
          | .ok d => (d, .ok ())

/-- Replaces a file as a whole: it has its old content or the new one, and the
temporary sibling is removed when something fails. -/
def replace (d : Disk) (p : Path) (content : List UInt8) : Disk × Except IoError Unit :=
  match d.replaceSteps p content with
  | (d, .ok ()) => (d, .ok ())
  | (d, .error e) => (d.tryRemove (temporary p), .error e)

/-- Makes all directories on the way to an absolute name, and the last. -/
def makeDirectories (d : Disk) (names : List Name) : Disk :=
  (List.range names.length).foldl
    (fun d n =>
      let here := names.take (n + 1)
      if (d.entry? here).isSome then d else d.put here .directory) d

/-- The names at and below a directory, without the directory. -/
def below (d : Disk) (names : List Name) : List (List Name × Entry) :=
  d.entries.filterMap fun (key, e) =>
    match names.isPrefixOf? key with
    | some (n :: rest) => some (n :: rest, e)
    | _ => none

/-- Removes an entry and everything below it. -/
def removeTree (d : Disk) (names : List Name) : Disk :=
  { d with entries := d.entries.filter fun (key, _) => !names.isPrefixOf key }

end Disk

end ViewPress
