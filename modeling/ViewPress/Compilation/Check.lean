import ViewPress.Compilation.Symbol
import ViewPress.Diagnostic.Report

/-!
# Checking a compilation

A compilation is well formed when no type is declared twice, every base and
attribute resolves, no type derives from itself, and every value that a render
block uses is the model or a variable of a loop around it.
-/

namespace ViewPress

inductive SemanticProblem where
  | alreadyDefined (name path : String)
  | conflict (name module : String)
  | unresolvedBase (name : String)
  | cyclic (name : String)
  | unresolvedAttribute (name : String)
  | notAttribute (name : String)
  | unbound (name : String)
  deriving DecidableEq, Repr

namespace SemanticProblem

def message : SemanticProblem → String
  | .alreadyDefined name path => "type `" ++ name ++ "` is already defined in `" ++ path ++ "`"
  | .conflict name module =>
      "type `" ++ name ++ "` conflicts with a type exported by reference `" ++ module ++ "`"
  | .unresolvedBase name => "unresolved base type `" ++ name ++ "`"
  | .cyclic name => "cyclic inheritance involving `" ++ name ++ "`"
  | .unresolvedAttribute name => "unresolved attribute `" ++ name ++ "`"
  | .notAttribute name => "`" ++ name ++ "` is not an attribute"
  | .unbound name => "cannot find value `" ++ name ++ "` in this scope"

def hints : SemanticProblem → List String
  | .unbound _ => ["paths start with `model` or a `for` loop variable"]
  | _ => []

def diagnostic (tree : Source.Tree) (span : Span) (p : SemanticProblem) : Diagnostic :=
  { Diagnostic.ofSpan tree.path tree.source span p.message with hints := p.hints }

end SemanticProblem

/-- The variable that holds the model. -/
def modelVariable : String := "model"

/-- The path itself, if its variable is not in scope. -/
def unboundPath (scope : List String) (p : Source.ValuePath) : List Source.ValuePath :=
  if scope.contains p.root then [] else [p]

mutual

/-- The paths of a statement that start at no variable in scope. -/
def unboundIn (scope : List String) : Source.Statement → List Source.ValuePath
  | .write _ => []
  | .emit path => unboundPath scope path
  | .branch cond _ yes none => unboundPath scope cond ++ unboundInAll scope yes
  | .branch cond _ yes (some no) =>
      unboundPath scope cond ++ unboundInAll scope yes ++ unboundInAll scope no
  | .forEach binding source body =>
      unboundPath scope source ++ unboundInAll (binding :: scope) body

def unboundInAll (scope : List String) : List Source.Statement → List Source.ValuePath
  | [] => []
  | s :: rest => unboundIn scope s ++ unboundInAll scope rest

end

namespace Compilation

/-- What is wrong with a second declaration of a name, given the first. -/
def clash (c : Compilation) (first : Symbol) : SemanticProblem :=
  match first.origin with
  | .source index => .alreadyDefined first.name ((c.trees[index]?.map Source.Tree.path).getD "")
  | .reference module => .conflict first.name module

/-- The diagnostics of declarations whose name is in `known` or declared before. -/
def declarationErrors (c : Compilation) (known : Symbols) :
    List (Nat × Source.Tree × Source.Declaration) → List Diagnostic
  | [] => []
  | (index, tree, d) :: rest =>
      match known.find? d.name with
      | some first => (c.clash first).diagnostic tree d.span :: declarationErrors c known rest
      | none => declarationErrors c (known ++ [Symbol.ofDeclaration index d]) rest

def baseErrors (symbols : Symbols) (tree : Source.Tree) (d : Source.Declaration) :
    List Diagnostic :=
  (d.bases.filter fun b => (symbols.find? b.name).isNone).map fun b =>
    (SemanticProblem.unresolvedBase b.name).diagnostic tree b.span

def cycleErrors (symbols : Symbols) (tree : Source.Tree) (d : Source.Declaration) :
    List Diagnostic :=
  if symbols.inCycle d.name then [(SemanticProblem.cyclic d.name).diagnostic tree d.span] else []

def attributeErrors (symbols : Symbols) (tree : Source.Tree) (d : Source.Declaration) :
    List Diagnostic :=
  d.attributes.filterMap fun a =>
    match symbols.find? a.name with
    | none => some ((SemanticProblem.unresolvedAttribute a.name).diagnostic tree a.span)
    | some s =>
        if s.kind = .attributeType then none
        else some ((SemanticProblem.notAttribute a.name).diagnostic tree a.span)

def scopeErrors (tree : Source.Tree) (d : Source.Declaration) : List Diagnostic :=
  (unboundInAll [modelVariable] (d.render.getD [])).map fun p =>
    (SemanticProblem.unbound p.root).diagnostic tree p.span

/-- Everything wrong with a compilation: names declared twice, then what is wrong
with each declaration in order. -/
def diagnostics (c : Compilation) : List Diagnostic :=
  let symbols := c.symbols
  c.declarationErrors c.referenceSymbols c.declarations
    ++ c.declarations.flatMap fun (_, tree, d) =>
      baseErrors symbols tree d ++ cycleErrors symbols tree d ++ attributeErrors symbols tree d
        ++ scopeErrors tree d

end Compilation

end ViewPress
