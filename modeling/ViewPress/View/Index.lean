import ViewPress.Module.Basic
import ViewPress.View.Render
import ViewPress.ViewPath

/-!
# The index of precompiled views

A view is a type of a module. The index of a module finds its tagged types by the
lookup key of their paths; a module in which two paths have the same key has none.
-/

namespace ViewPress

/-- A type of a module, to be rendered. -/
structure CompiledView where
  module : String
  type : TypeDef
  deriving Repr

namespace CompiledView

def path? (v : CompiledView) : Option String :=
  v.type.viewPath?

def render (v : CompiledView) (model : Json) : String :=
  View.render v.type.body model

end CompiledView

/-- Two types of a module with paths that have the same lookup key. -/
structure DuplicatePath where
  path : String
  first : String
  second : String
  deriving DecidableEq, Repr

def DuplicatePath.message (e : DuplicatePath) : String :=
  "view path `" ++ e.path ++ "` is claimed by both `" ++ e.first ++ "` and `" ++ e.second ++ "`"

/-- Views by lookup key. -/
structure ViewIndex where
  entries : List (String × CompiledView)
  deriving Repr

namespace ViewIndex

/-- Adds types to an index, in order. -/
def addTypes (module : String) (index : ViewIndex) :
    List (String × TypeDef) → Except DuplicatePath ViewIndex
  | [] => .ok index
  | (path, type) :: rest =>
      let key := ViewPath.lookupKey path
      match index.entries.lookup key with
      | some taken => .error { path, first := taken.type.name, second := type.name }
      | none => addTypes module ⟨index.entries ++ [(key, { module, type })]⟩ rest

/-- The index of a module's tagged types. -/
def build (m : Module) : Except DuplicatePath ViewIndex :=
  addTypes m.name ⟨[]⟩ m.taggedTypes

/-- The view asked for by a path. -/
def get? (index : ViewIndex) (path : String) : Option CompiledView :=
  index.entries.lookup (ViewPath.lookupKey path)

def size (index : ViewIndex) : Nat :=
  index.entries.length

end ViewIndex

end ViewPress
