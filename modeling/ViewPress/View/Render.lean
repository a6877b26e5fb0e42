import ViewPress.Json.Printer
import ViewPress.Module.Basic

/-!
# Rendering views

A render body runs against a model. What it writes is a list of chunks: fixed text,
which goes out as it is, and values, which go out with the characters that mean
something in markup replaced by entities.
-/

namespace ViewPress.View

/-- The values in scope, the innermost first. -/
abbrev Scope := List (String × Json)

/-- The member of an object. Other values have none. -/
def member? (name : String) : Json → Option Json
  | .obj members => members.lookup name
  | _ => none

def members? (value : Json) : List String → Option Json
  | [] => some value
  | name :: rest => (member? name value).bind (members? · rest)

/-- The value of a path: the innermost variable of its first name, then members. -/
def resolve (scope : Scope) : List String → Option Json
  | [] => none
  | root :: rest => (scope.lookup root).bind (members? · rest)

/-- Whether a value counts as true. -/
def isTrue : Json → Bool
  | .null => false
  | .bool b => b
  | .num n => n.isNonzero
  | .str s => !s.isEmpty
  | .arr items => !items.isEmpty
  | .obj members => !members.isEmpty
  | .garbled => false

/-- The values that a loop runs over. -/
def items : Json → List Json
  | .arr items => items
  | .obj members => members.map Prod.snd
  | _ => []

/-- The text of a value. -/
def display : Json → String
  | .null => ""
  | .str s => s
  | j => j.compact

/-- A piece of output. -/
inductive Chunk where
  | fixed (text : String)
  | value (text : String)
  deriving DecidableEq, Repr

mutual

def runInstr (scope : Scope) : Instr → List Chunk
  | .write text => [.fixed text]
  | .emit path =>
      match resolve scope path with
      | some value => [.value (display value)]
      | none => []
  | .branch cond negate yes no =>
      if (resolve scope cond).any isTrue != negate then runBody scope yes
      else runBody scope no
  | .forEach binding source body =>
      match resolve scope source with
      | some value => (items value).flatMap fun item => runBody ((binding, item) :: scope) body
      | none => []

/-- The chunks that a body writes. -/
def runBody (scope : Scope) : List Instr → List Chunk
  | [] => []
  | i :: rest => runInstr scope i ++ runBody scope rest

end

/-- The characters that stand for `c` in markup. -/
def escapeChar : Char → List Char
  | '<' => ['&', 'l', 't', ';']
  | '>' => ['&', 'g', 't', ';']
  | '&' => ['&', 'a', 'm', 'p', ';']
  | '"' => ['&', 'q', 'u', 'o', 't', ';']
  | '\'' => ['&', '#', '3', '9', ';']
  | c => [c]

/-- Whether a character means something in markup. -/
def isSpecial (c : Char) : Bool :=
  c ∈ ['<', '>', '&', '"', '\'']

/-- The text as it can stand in markup. Most texts need no change. -/
def escape (text : String) : String :=
  if text.toList.any isSpecial then String.ofList (text.toList.flatMap escapeChar) else text

def Chunk.html : Chunk → String
  | .fixed text => text
  | .value text => escape text

/-- Renders a body against a model. -/
def render (body : List Instr) (model : Json) : String :=
  String.join ((runBody [("model", model)] body).map Chunk.html)

end ViewPress.View
