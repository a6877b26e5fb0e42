import ViewPress.Module.Basic
import ViewPress.Source.Printer
import ViewPress.Template.ClassName
import ViewPress.Template.Parser

/-!
# Generated units

Each template gives one source unit: a class named after the template's path,
whose render block is the template's body. A template with problems gives a unit
without code, which no compilation takes up.
-/

namespace ViewPress.Template

mutual

def Node.statement : Node → Source.Statement
  | .text content => .write content
  | .emit path => .emit { segments := path }
  | .branch cond negate yes none =>
      .branch { segments := cond } negate (statements yes) none
  | .branch cond negate yes (some no) =>
      .branch { segments := cond } negate (statements yes) (some (statements no))
  | .forEach binding source body =>
      .forEach binding { segments := source } (statements body)

/-- The statements of a template's body. -/
def statements : List Node → List Source.Statement
  | [] => []
  | n :: ns => n.statement :: statements ns

end

/-- The class of the template at `path`. -/
def declaration (path : String) (t : Template) : Source.Declaration where
  attributes := []
  kind := .classType
  name := className path
  bases := [{ name := t.inherits.getD Module.pageBase }]
  render := some (statements t.nodes)

/-- A text on one line: line breaks become blanks. -/
def oneLine (s : String) : String :=
  s.map fun c => if c = '\n' ∨ c = '\r' then ' ' else c

/-- The comment in front of generated code. -/
def header (application path : String) : String :=
  "// Generated from `" ++ oneLine path ++ "` for application `" ++ oneLine application ++ "`.\n"

def code (application path : String) (t : Template) : String :=
  header application path ++ Source.printTypes [declaration path t]

end ViewPress.Template

namespace ViewPress

/-- The source unit of the view at `path`. -/
structure GeneratedUnit where
  path : String
  code : String
  diagnostics : List Diagnostic
  deriving DecidableEq, Repr

namespace GeneratedUnit

def success (u : GeneratedUnit) : Bool :=
  u.diagnostics.isEmpty

def failed (path : String) (diagnostics : List Diagnostic) : GeneratedUnit :=
  { path, code := "", diagnostics }

/-- The text without one byte order mark at its start. -/
def dropMark (text : String) : String :=
  match text.toList with
  | '\uFEFF' :: cs => String.ofList cs
  | _ => text

/-- The unit of a template text. -/
def ofText (application path : String) (source : String) : GeneratedUnit :=
  match Template.parse source with
  | (template, []) => { path, code := template.code application path, diagnostics := [] }
  | (_, problems) =>
      failed path (problems.map fun (problem, span) => problem.diagnostic path source span)

/-- The unit of a template file. -/
def ofBytes (application path : String) (bytes : List UInt8) : GeneratedUnit :=
  match Text.ofUtf8? bytes with
  | some text => ofText application path (dropMark text)
  | none =>
      failed path
        [Diagnostic.ofSpan path (Text.lossy bytes) { start := Text.validUpTo bytes, len := 1 }
          "template is not valid UTF-8"]

end GeneratedUnit

end ViewPress
