import ViewPress.Diagnostic.Report
import ViewPress.Template.Segment
import ViewPress.Text.Identifier

/-!
# Parsing templates

The segments of a template are read one after another by a machine with a stack
of open blocks. A tag either takes the machine to its next state or is refused
with a problem that leaves the state as it was, so one reading reports every
problem of a template. Blocks that are still open at the end are dropped, each
with a problem of its own.
-/

namespace ViewPress.Template

/-- The body of a template. -/
inductive Node where
  | text (content : String)
  | emit (path : List String)
  | branch (cond : List String) (negate : Bool) (yes : List Node) (no : Option (List Node))
  | forEach (binding : String) (source : List String) (body : List Node)
  deriving Repr

/-- What a directive says, told by its words. -/
inductive Directive where
  | openIf (negate : Bool) (path : String)
  | elseMark
  | closeIf
  | openFor (binding path : String)
  | closeFor
  | inherits (name : String)
  | malformed (keyword : String)
  | unknown (name : String)
  deriving DecidableEq, Repr

def isKeyword (word : String) : Bool :=
  word ∈ ["if", "else", "endif", "for", "endfor", "inherits"]

/-- Reads the words of a directive. The word `not` alone after `if` is a path. -/
def Directive.ofWords : List String → Directive
  | ["if", "not", path] => .openIf true path
  | ["if", path] => .openIf false path
  | ["else"] => .elseMark
  | ["endif"] => .closeIf
  | ["for", binding, "in", path] => .openFor binding path
  | ["endfor"] => .closeFor
  | ["inherits", name] => .inherits name
  | word :: _ => if isKeyword word then .malformed word else .unknown word
  | [] => .unknown ""

def Directive.ofInner (inner : List Char) : Directive :=
  .ofWords ((Text.words inner).map String.ofList)

inductive BlockKind where
  | if
  | for
  deriving DecidableEq, Repr

def BlockKind.keyword : BlockKind → String
  | .if => "if"
  | .for => "for"

/-- What can be wrong with a template. -/
inductive Problem where
  | invalidExpression (text : String)
  | invalidVariable (name : String)
  | invalidTypeName (name : String)
  | duplicateElse
  | strayElse
  | strayEndIf
  | strayEndFor
  | nestedInherits
  | duplicateInherits
  | malformed (keyword : String)
  | unknown (name : String)
  | unclosedTag (kind : TagKind)
  | unclosedBlock (kind : BlockKind)
  deriving DecidableEq, Repr

/-- A directive as it is quoted in messages. -/
def tagText (words : String) : String :=
  "`\x7b% " ++ words ++ " %\x7d`"

def Problem.message : Problem → String
  | .invalidExpression text => "invalid expression `" ++ text ++ "`"
  | .invalidVariable name => "invalid loop variable `" ++ name ++ "`"
  | .invalidTypeName name => "invalid type name `" ++ name ++ "`"
  | .duplicateElse => "duplicate " ++ tagText "else"
  | .strayElse => tagText "else" ++ " without an open " ++ tagText "if"
  | .strayEndIf => tagText "endif" ++ " without an open " ++ tagText "if"
  | .strayEndFor => tagText "endfor" ++ " without an open " ++ tagText "for"
  | .nestedInherits => tagText "inherits" ++ " must appear at the top level"
  | .duplicateInherits => "duplicate " ++ tagText "inherits"
  | .malformed keyword => "malformed " ++ tagText keyword ++ " directive"
  | .unknown name => "unknown directive `" ++ name ++ "`"
  | .unclosedTag kind => "unclosed tag `" ++ kind.opener ++ "`"
  | .unclosedBlock kind => "unclosed " ++ tagText kind.keyword ++ " block"

def Problem.hints : Problem → List String
  | .unknown _ => ["expected one of: if, else, endif, for, endfor, inherits"]
  | .unclosedTag kind => ["add the closing `" ++ kind.closerText ++ "`"]
  | .unclosedBlock kind => ["add " ++ tagText ("end" ++ kind.keyword)]
  | _ => []

/-- A block whose end tag has not come yet, with what it holds so far and the
bytes of the tag that opened it. -/
inductive Frame where
  | branch (cond : List String) (negate : Bool) (yes : List Node) (no : Option (List Node))
      (opened : Span)
  | forEach (binding : String) (source : List String) (body : List Node) (opened : Span)
  deriving Repr

/-- Adds a node at the end. Text after text becomes one node. -/
def appendNode : List Node → Node → List Node
  | [], node => [node]
  | [.text a], .text b => [.text (a ++ b)]
  | n :: ns, node => n :: appendNode ns node

def Frame.push (node : Node) : Frame → Frame
  | .branch cond negate yes none opened => .branch cond negate (appendNode yes node) none opened
  | .branch cond negate yes (some no) opened =>
      .branch cond negate yes (some (appendNode no node)) opened
  | .forEach binding source body opened => .forEach binding source (appendNode body node) opened

def Frame.problem : Frame → Problem × Span
  | .branch _ _ _ _ opened => (.unclosedBlock .if, opened)
  | .forEach _ _ _ opened => (.unclosedBlock .for, opened)

/-- The machine between two segments: the nodes outside blocks, the open blocks
with the innermost first, and the base the template names. -/
structure State where
  nodes : List Node := []
  stack : List Frame := []
  inherits : Option String := none
  deriving Repr

namespace State

/-- Adds a node to the innermost open block. -/
def push (s : State) (node : Node) : State :=
  match s.stack with
  | [] => { s with nodes := appendNode s.nodes node }
  | frame :: rest => { s with stack := frame.push node :: rest }

def expression (s : State) (inner : List Char) : Except Problem State :=
  let text := Text.trim inner
  match Text.dotted? text with
  | some path => .ok (s.push (.emit path))
  | none => .error (.invalidExpression (String.ofList text))

def directive (s : State) (span : Span) : Directive → Except Problem State
  | .openIf negate path =>
      match Text.dotted? path.toList with
      | some cond => .ok { s with stack := .branch cond negate [] none span :: s.stack }
      | none => .error (.invalidExpression path)
  | .elseMark =>
      match s.stack with
      | .branch cond negate yes none opened :: rest =>
          .ok { s with stack := .branch cond negate yes (some []) opened :: rest }
      | .branch _ _ _ (some _) _ :: _ => .error .duplicateElse
      | _ => .error .strayElse
  | .closeIf =>
      match s.stack with
      | .branch cond negate yes no _ :: rest =>
          .ok (push { s with stack := rest } (.branch cond negate yes no))
      | _ => .error .strayEndIf
  | .openFor binding path =>
      match Text.dotted? path.toList with
      | none => .error (.invalidExpression path)
      | some source =>
          if Text.isIdent binding.toList then
            .ok { s with stack := .forEach binding source [] span :: s.stack }
          else .error (.invalidVariable binding)
  | .closeFor =>
      match s.stack with
      | .forEach binding source body _ :: rest =>
          .ok (push { s with stack := rest } (.forEach binding source body))
      | _ => .error .strayEndFor
  | .inherits name =>
      if !s.stack.isEmpty then .error .nestedInherits
      else if s.inherits.isSome then .error .duplicateInherits
      else if (Text.dotted? name.toList).isNone then .error (.invalidTypeName name)
      else .ok { s with inherits := some name }
  | .malformed keyword => .error (.malformed keyword)
  | .unknown name => .error (.unknown name)

/-- The state after a segment, or the problem that refuses it. -/
def step (s : State) : Segment → Except (Problem × Span) State
  | .text content => .ok (s.push (.text (String.ofList content)))
  | .tag .expression inner span => (s.expression inner).mapError (·, span)
  | .tag .directive inner span => (s.directive span (.ofInner inner)).mapError (·, span)
  | .tag .comment _ _ => .ok s
  | .unclosed kind span => .error (.unclosedTag kind, span)

/-- The state after all segments and the problems met, in order. -/
def run (s : State) : List Segment → State × List (Problem × Span)
  | [] => (s, [])
  | segment :: rest =>
      match s.step segment with
      | .ok next => run next rest
      | .error problem =>
          let (final, problems) := run s rest
          (final, problem :: problems)

end State

end ViewPress.Template

namespace ViewPress

/-- A parsed template: its body and the base it names. -/
structure Template where
  nodes : List Template.Node
  inherits : Option String
  deriving Repr

namespace Template

/-- The template that a source text spells, and everything wrong with it. -/
def parse (source : String) : Template × List (Problem × Span) :=
  let (final, problems) := State.run {} (segments source)
  ({ nodes := final.nodes, inherits := final.inherits },
    problems ++ final.stack.map Frame.problem)

/-- A problem as a diagnostic about the template at `path`. -/
def Problem.diagnostic (path source : String) (problem : Problem) (span : Span) : Diagnostic :=
  { Diagnostic.ofSpan path source span problem.message with hints := problem.hints }

end Template

end ViewPress
