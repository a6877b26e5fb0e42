import ViewPress.Text.Utf8

/-!
# Paths

A path is a byte string with slashes. It is kept as it was written, since messages
show it so; comparing two paths, or asking for a parent or a name, goes by
components. Empty components do not count, nor do dots other than one at the very
start, and double dots stand for themselves.
-/

namespace ViewPress

abbrev Name := List UInt8

structure Path where
  bytes : List UInt8
  deriving DecidableEq, Repr

namespace Path

def slash : UInt8 := 0x2F
def dot : Name := [0x2E]
def dotDot : Name := [0x2E, 0x2E]

def ofString (s : String) : Path := ⟨Text.utf8 s⟩

/-- The path as messages show it. -/
def display (p : Path) : String := Text.lossy p.bytes

inductive Component where
  | root
  | current
  | parent
  | name (n : Name)
  deriving DecidableEq, Repr

/-- What stands between slashes, empty pieces included. -/
def split : List UInt8 → List Name
  | [] => [[]]
  | b :: bs =>
      if b == slash then [] :: split bs
      else match split bs with
        | [] => [[b]]
        | n :: ns => (b :: n) :: ns

def isAbsolute (p : Path) : Bool :=
  p.bytes.head? == some slash

def ofPiece (n : Name) : Component :=
  if n = dotDot then .parent else .name n

def components (p : Path) : List Component :=
  let pieces := split p.bytes
  let body := (pieces.filter fun n => n ≠ [] ∧ n ≠ dot).map ofPiece
  if p.isAbsolute then .root :: body
  else if pieces.head? = some dot then .current :: body
  else body

def same (p q : Path) : Bool :=
  p.components == q.components

/-- Whether `q` is at or below `p`, by components. -/
def isAbove (p q : Path) : Bool :=
  p.components.isPrefixOf q.components

/-- `p` followed by `q`, with a slash between them where there is none. A `q` that
is absolute stands for itself. -/
def join (p q : Path) : Path :=
  if q.isAbsolute then q
  else if p.bytes.isEmpty || p.bytes.getLast? == some slash then ⟨p.bytes ++ q.bytes⟩
  else ⟨p.bytes ++ slash :: q.bytes⟩

/-- `p` followed by a name. -/
def child (p : Path) (s : String) : Path :=
  p.join (ofString s)

/-- The last component, if it is a name. -/
def fileName? (p : Path) : Option Name :=
  match p.components.getLast? with
  | some (.name n) => some n
  | _ => none

/-- Drops slashes and single dots at the end, as far as they are no components. The
path comes with its end first. -/
def trimTail : List UInt8 → List UInt8
  | 0x2F :: rest => if rest.isEmpty then [0x2F] else trimTail rest
  | 0x2E :: 0x2F :: rest => trimTail (0x2F :: rest)
  | bs => bs

/-- The path without its last component, or none if that is the root or missing. -/
def parent? (p : Path) : Option Path :=
  match p.components.getLast? with
  | none | some .root => none
  | some _ =>
      let trimmed := trimTail p.bytes.reverse
      let rest := trimmed.dropWhile (· != slash)
      some ⟨(trimTail rest).reverse⟩

/-- The path with another name in place of its last, or behind it if that is no
name. -/
def withFileName (p : Path) (n : Name) : Path :=
  match p.fileName?, p.parent? with
  | some _, some parent => parent.join ⟨n⟩
  | _, _ => p.join ⟨n⟩

/-- The steps that walking the path takes, from the root or the working
directory. A slash at the end asks for a directory, like a dot. -/
def steps (p : Path) : List Name :=
  let pieces := (split p.bytes).filter (· ≠ [])
  if p.bytes.getLast? == some slash then pieces ++ [dot] else pieces

def ofNames (names : List Name) : Path :=
  if names.isEmpty then ⟨[slash]⟩ else ⟨names.flatMap fun n => slash :: n⟩

end Path

end ViewPress
