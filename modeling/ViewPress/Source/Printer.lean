import ViewPress.Source.Tree
import ViewPress.Text.Identifier

/-!
# Printing trees

The printed form of a list of declarations, with four blanks a level and an empty
line between declarations. Reading it back gives the same declarations, up to
where they stand.
-/

namespace ViewPress.Source

/-- The characters that stand for `c` inside a string literal. -/
def escapeChar : Char → List Char
  | '"' => ['\\', '"']
  | '\\' => ['\\', '\\']
  | '\n' => ['\\', 'n']
  | '\r' => ['\\', 'r']
  | '\t' => ['\\', 't']
  | c => [c]

def quote (text : String) : String :=
  String.ofList ('"' :: text.toList.flatMap escapeChar ++ ['"'])

/-- The blanks in front of a line at a nesting depth. -/
def indent (depth : Nat) : String :=
  String.ofList (List.replicate (4 * depth) ' ')

def ValuePath.dotted (p : ValuePath) : String :=
  Text.joinDots p.segments

mutual

/-- A statement on lines of its own. -/
def Statement.print (depth : Nat) : Statement → String
  | .write text => indent depth ++ "write " ++ quote text ++ ";\n"
  | .emit path => indent depth ++ "emit " ++ path.dotted ++ ";\n"
  | .branch cond negate yes none =>
      indent depth ++ "if " ++ (if negate then "!" else "") ++ cond.dotted ++ " "
        ++ "\x7b\n" ++ printStatements (depth + 1) yes ++ indent depth ++ "\x7d" ++ "\n"
  | .branch cond negate yes (some no) =>
      indent depth ++ "if " ++ (if negate then "!" else "") ++ cond.dotted ++ " "
        ++ "\x7b\n" ++ printStatements (depth + 1) yes ++ indent depth ++ "\x7d" ++ " else "
        ++ "\x7b\n" ++ printStatements (depth + 1) no ++ indent depth ++ "\x7d" ++ "\n"
  | .forEach binding source body =>
      indent depth ++ "for " ++ binding ++ " in " ++ source.dotted ++ " "
        ++ "\x7b\n" ++ printStatements (depth + 1) body ++ indent depth ++ "\x7d" ++ "\n"

def printStatements (depth : Nat) : List Statement → String
  | [] => ""
  | s :: rest => s.print depth ++ printStatements depth rest

end

/-- The arguments of an attribute, with parentheses if there are any. -/
def printArgs (args : List String) : String :=
  if args.isEmpty then "" else "(" ++ ", ".intercalate (args.map quote) ++ ")"

def Attribute.print (a : Attribute) : String :=
  "#[" ++ a.name ++ printArgs a.args ++ "]\n"

def DeclarationKind.keyword : DeclarationKind → String
  | .classType => "class"
  | .interfaceType => "interface"

/-- The bases of a declaration, behind a colon if there are any. -/
def printBases (bases : List BaseRef) : String :=
  if bases.isEmpty then "" else " : " ++ ", ".intercalate (bases.map BaseRef.name)

/-- The render block of a declaration, if there is one. -/
def printRender : Option (List Statement) → String
  | none => ""
  | some block => indent 1 ++ "render \x7b\n" ++ printStatements 2 block ++ indent 1 ++ "\x7d\n"

def Declaration.print (d : Declaration) : String :=
  String.join (d.attributes.map Attribute.print)
    ++ d.kind.keyword ++ " " ++ d.name ++ printBases d.bases ++ " \x7b\n" ++ printRender d.render
    ++ "\x7d\n"

/-- Declarations with an empty line between them. -/
def printTypes (types : List Declaration) : String :=
  "\n".intercalate (types.map Declaration.print)

end ViewPress.Source
