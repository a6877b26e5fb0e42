import ViewPress.Json.Basic
import ViewPress.Module.Basic

/-!
# Modules as JSON

The JSON form of a module names every field. Reading it back is lenient about
what is not there: a list that is missing is empty, a field that is not known is
skipped whatever it holds, and a record may be an array of its fields in order. It
is strict about everything else, and it does not look deeper than `room` nested
arrays and objects.
-/

namespace ViewPress

namespace Json

/-- The fields of a record, with `none` for those that are missing. A known field
written twice, or an array with more entries than fields, is no record. -/
def record? (names : List String) : Json → Option (List (Option Json))
  | .obj members =>
      names.mapM fun name =>
        match members.filter (·.1 == name) with
        | [] => some none
        | [(_, j)] => some (some j)
        | _ => none
  | .arr items =>
      if items.length ≤ names.length then
        some (items.map some ++ List.replicate (names.length - items.length) none)
      else none
  | _ => none

def str? : Json → Option String
  | .str s => some s
  | _ => none

def bool? : Json → Option Bool
  | .bool b => some b
  | _ => none

/-- The items of an array, when there is room for one more level. -/
def items? : Nat → Json → Option (List Json)
  | _ + 1, .arr items => some items
  | _, _ => none

def strings? (room : Nat) (j : Json) : Option (List String) := do
  (← items? room j).mapM str?

/-- The items of a list field, which may be missing. -/
def listField? (room : Nat) : Option Json → Option (List Json)
  | none => some []
  | some j => items? room j

def ofStrings (texts : List String) : Json :=
  .arr (texts.map .str)

end Json

mutual

def Instr.toJson : Instr → Json
  | .write text => .obj [("write", .str text)]
  | .emit path => .obj [("emit", .ofStrings path)]
  | .branch cond negate yes no =>
      .obj [("if", .obj [("cond", .ofStrings cond), ("negate", .bool negate),
        ("then", .arr (Instr.toJsons yes)), ("otherwise", .arr (Instr.toJsons no))])]
  | .forEach binding source body =>
      .obj [("for", .obj [("binding", .str binding), ("source", .ofStrings source),
        ("body", .arr (Instr.toJsons body))])]

def Instr.toJsons : List Instr → List Json
  | [] => []
  | i :: is => i.toJson :: Instr.toJsons is

end

/-- Reads an instruction: an object whose one key says which. Branches and loops
nest three levels before their bodies. -/
def Instr.ofJson? : Nat → Json → Option Instr
  | _ + 1, .obj [("write", j)] => j.str?.map .write
  | room + 1, .obj [("emit", j)] => (j.strings? room).map .emit
  | room + 3, .obj [("if", j)] =>
      match j.record? ["cond", "negate", "then", "otherwise"] with
      | some [some cond, some negate, some yes, no] => do
          let cond ← cond.strings? (room + 1)
          let negate ← negate.bool?
          let yes ← (← yes.items? (room + 1)).mapM (Instr.ofJson? room)
          let no ← (← Json.listField? (room + 1) no).mapM (Instr.ofJson? room)
          return .branch cond negate yes no
      | _ => none
  | room + 3, .obj [("for", j)] =>
      match j.record? ["binding", "source", "body"] with
      | some [some binding, some source, some body] => do
          let binding ← binding.str?
          let source ← source.strings? (room + 1)
          let body ← (← body.items? (room + 1)).mapM (Instr.ofJson? room)
          return .forEach binding source body
      | _ => none
  | _, _ => none

def TypeKind.ofKeyword? : String → Option TypeKind
  | "class" => some .classType
  | "interface" => some .interfaceType
  | "attribute" => some .attributeType
  | _ => none

/-- Reads a kind: its name, or an object with the name as key of `null`. -/
def TypeKind.ofJson? : Nat → Json → Option TypeKind
  | _, .str name => ofKeyword? name
  | _ + 1, .obj [(name, .null)] => ofKeyword? name
  | _, _ => none

def AttributeDef.toJson (a : AttributeDef) : Json :=
  .obj [("name", .str a.name), ("args", .ofStrings a.args)]

def AttributeDef.ofJson? : Nat → Json → Option AttributeDef
  | 0, _ => none
  | room + 1, j =>
      match j.record? ["name", "args"] with
      | some [some name, args] => do
          return { name := ← name.str?, args := ← (← Json.listField? room args).mapM Json.str? }
      | _ => none

def TypeDef.toJson (t : TypeDef) : Json :=
  .obj [("name", .str t.name), ("kind", .str t.kind.keyword), ("bases", .ofStrings t.bases),
    ("attributes", .arr (t.attributes.map AttributeDef.toJson)),
    ("body", .arr (Instr.toJsons t.body))]

def TypeDef.ofJson? : Nat → Json → Option TypeDef
  | 0, _ => none
  | room + 1, j =>
      match j.record? ["name", "kind", "bases", "attributes", "body"] with
      | some [some name, some kind, bases, attributes, body] => do
          return {
            name := ← name.str?
            kind := ← TypeKind.ofJson? room kind
            bases := ← (← Json.listField? room bases).mapM Json.str?
            attributes :=
              ← (← Json.listField? room attributes).mapM (AttributeDef.ofJson? (room - 1))
            body := ← (← Json.listField? room body).mapM (Instr.ofJson? (room - 1)) }
      | _ => none

namespace Module

def toJson (m : Module) : Json :=
  .obj [("name", .str m.name), ("types", .arr (m.types.map TypeDef.toJson))]

def ofJsonAt? : Nat → Json → Option Module
  | 0, _ => none
  | room + 1, j =>
      match j.record? ["name", "types"] with
      | some [some name, types] => do
          return {
            name := ← name.str?
            types := ← (← Json.listField? room types).mapM (TypeDef.ofJson? (room - 1)) }
      | _ => none

/-- The module that a JSON value stands for. -/
def ofJson? (j : Json) : Option Module :=
  ofJsonAt? Json.nestingLimit j

end Module

end ViewPress
