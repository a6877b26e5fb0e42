import ViewPress.Diagnostic.Report
import ViewPress.Source.Token
import ViewPress.Source.Tree
import ViewPress.Text.Identifier

/-!
# Parsing the view language

A parser for the grammar

    types     := declaration*
    declaration := attribute* ("class" | "interface") name (":" name ("," name)*)?
                   "{" ("render" block)? "}"
    attribute := "#" "[" name ("(" (string ("," string)* ","?)? ")")? "]"
    block     := "{" statement* "}"
    statement := "write" string ";" | "emit" name ";"
               | "if" "!"? name block ("else" block)?
               | "for" identifier "in" name block

on lexemes. It looks one lexeme ahead and stops at the first that cannot go on,
which is kept with the error as the head of what was left. Words such as `class`
are ordinary identifiers wherever an identifier is expected.

Loops spend a budget, one unit for every round; the number of lexemes is enough,
because every round uses up at least one.
-/

namespace ViewPress.Source

inductive Expected where
  | declaration
  | identifier
  | stringLiteral
  | punct (c : Char)
  | keywordIn
  | member
  | statement
  | statementKeyword
  deriving DecidableEq, Repr

/-- The wording of what was looked for. -/
def Expected.describe : Expected → String
  | .declaration => "`class` or `interface`"
  | .identifier => "identifier"
  | .stringLiteral => "string literal"
  | .punct c => "`" ++ String.singleton c ++ "`"
  | .keywordIn => "`in`"
  | .member => "`render` or `\x7d`"
  | .statement => "statement"
  | .statementKeyword => "`write`, `emit`, `if` or `for`"

/-- Why lexemes are no declarations. -/
inductive Problem where
  | expected (what : Expected)
  | duplicateRender
  deriving DecidableEq, Repr

/-- A problem, and the lexemes from the offending one on. -/
structure Rejection where
  problem : Problem
  rest : List Lexeme
  deriving DecidableEq, Repr

/-- The outcome of reading an `α` off the front of `ts` when something else was
expected there. -/
def reject {α : Type} (what : Expected) (ts : List Lexeme) : Except Rejection (α × List Lexeme) :=
  .error { problem := .expected what, rest := ts }

def expectPunct (c : Char) : List Lexeme → Except Rejection (Span × List Lexeme)
  | ⟨.punct d, span⟩ :: rest =>
      if d = c then .ok (span, rest) else reject (.punct c) (⟨.punct d, span⟩ :: rest)
  | ts => reject (.punct c) ts

def expectIdent : List Lexeme → Except Rejection ((String × Span) × List Lexeme)
  | ⟨.ident name, span⟩ :: rest => .ok ((name, span), rest)
  | ts => reject .identifier ts

def expectString : List Lexeme → Except Rejection (String × List Lexeme)
  | ⟨.str text, _⟩ :: rest => .ok (text, rest)
  | ts => reject .stringLiteral ts

def expectIn : List Lexeme → Except Rejection (Unit × List Lexeme)
  | ⟨.ident name, span⟩ :: rest =>
      if name = "in" then .ok ((), rest) else reject .keywordIn (⟨.ident name, span⟩ :: rest)
  | ts => reject .keywordIn ts

/-- The further segments of a dotted name, and the offset where the name ends. -/
def parseSegments (stop : Nat) : List Lexeme → Except Rejection ((List String × Nat) × List Lexeme)
  | ⟨.punct '.', _⟩ :: ⟨.ident name, span⟩ :: rest => do
      let ((names, last), rest) ← parseSegments span.stop rest
      return ((name :: names, last), rest)
  | ⟨.punct '.', _⟩ :: rest => reject .identifier rest
  | ts => .ok (([], stop), ts)

/-- A dotted name with the bytes from its first segment to its last. -/
def parseDotted (ts : List Lexeme) : Except Rejection ((List String × Span) × List Lexeme) := do
  let ((first, span), ts) ← expectIdent ts
  let ((names, last), ts) ← parseSegments span.stop ts
  return ((first :: names, { start := span.start, len := last - span.start }), ts)

def parsePath (ts : List Lexeme) : Except Rejection (ValuePath × List Lexeme) := do
  let ((segments, span), ts) ← parseDotted ts
  return ({ segments, span }, ts)

/-- The arguments of an attribute, up to and with the closing parenthesis. A
comma may follow the last one. -/
def parseArgs : List Lexeme → Except Rejection (List String × List Lexeme)
  | ⟨.punct ')', _⟩ :: rest => .ok ([], rest)
  | ⟨.str text, _⟩ :: ⟨.punct ',', _⟩ :: rest => do
      let (texts, rest) ← parseArgs rest
      return (text :: texts, rest)
  | ⟨.str text, _⟩ :: rest => do
      let (_, rest) ← expectPunct ')' rest
      return ([text], rest)
  | ts => reject .stringLiteral ts

/-- The arguments of an attribute, which need not be there. -/
def parseParens : List Lexeme → Except Rejection (List String × List Lexeme)
  | ⟨.punct '(', _⟩ :: rest => parseArgs rest
  | ts => .ok ([], ts)

/-- An attribute, from after its `#` at offset `start`. -/
def parseAttribute (start : Nat) (ts : List Lexeme) :
    Except Rejection (Attribute × List Lexeme) := do
  let (_, ts) ← expectPunct '[' ts
  let ((names, _), ts) ← parseDotted ts
  let (args, ts) ← parseParens ts
  let (close, ts) ← expectPunct ']' ts
  return ({ name := Text.joinDots names, args,
            span := { start, len := close.start + 1 - start } }, ts)

/-- The attributes in front of a declaration. -/
def parseAttributes : Nat → List Lexeme → Except Rejection (List Attribute × List Lexeme)
  | n + 1, ⟨.punct '#', span⟩ :: rest => do
      let (first, rest) ← parseAttribute span.start rest
      let (attributes, rest) ← parseAttributes n rest
      return (first :: attributes, rest)
  | _, ts => .ok ([], ts)

/-- One or more bases with commas between them. -/
def parseBases : Nat → List Lexeme → Except Rejection (List BaseRef × List Lexeme)
  | 0, ts => reject .identifier ts
  | n + 1, ts => do
      let ((names, span), ts) ← parseDotted ts
      let base : BaseRef := { name := Text.joinDots names, span }
      match ts with
      | ⟨.punct ',', _⟩ :: rest => do
          let (bases, rest) ← parseBases n rest
          return (base :: bases, rest)
      | ts => return ([base], ts)

/-- The bases of a declaration, which need not be there. -/
def parseHeritage (n : Nat) : List Lexeme → Except Rejection (List BaseRef × List Lexeme)
  | ⟨.punct ':', _⟩ :: rest => parseBases n rest
  | ts => .ok ([], ts)

/-- Whether a `!` stands in front, and what follows it. -/
def takeBang : List Lexeme → Bool × List Lexeme
  | ⟨.punct '!', _⟩ :: rest => (true, rest)
  | ts => (false, ts)

mutual

/-- Statements up to and with the closing brace of their block. -/
def parseStatements : Nat → List Lexeme → Except Rejection (List Statement × List Lexeme)
  | 0, ts => reject .statement ts
  | _ + 1, ⟨.punct '}', _⟩ :: rest => .ok ([], rest)
  | n + 1, ts => do
      let (statement, ts) ← parseStatement n ts
      let (statements, ts) ← parseStatements n ts
      return (statement :: statements, ts)

/-- One statement, told by its first word. -/
def parseStatement : Nat → List Lexeme → Except Rejection (Statement × List Lexeme)
  | 0, ts => reject .statement ts
  | n + 1, ⟨.ident word, span⟩ :: rest =>
      if word = "write" then do
        let (text, ts) ← expectString rest
        let (_, ts) ← expectPunct ';' ts
        return (.write text, ts)
      else if word = "emit" then do
        let (path, ts) ← parsePath rest
        let (_, ts) ← expectPunct ';' ts
        return (.emit path, ts)
      else if word = "if" then do
        let (negate, ts) := takeBang rest
        let (cond, ts) ← parsePath ts
        let (_, ts) ← expectPunct '{' ts
        let (yes, ts) ← parseStatements n ts
        match ts with
        | ⟨.ident "else", _⟩ :: ts => do
            let (_, ts) ← expectPunct '{' ts
            let (no, ts) ← parseStatements n ts
            return (.branch cond negate yes (some no), ts)
        | ts => return (.branch cond negate yes none, ts)
      else if word = "for" then do
        let ((binding, _), ts) ← expectIdent rest
        let (_, ts) ← expectIn ts
        let (source, ts) ← parsePath ts
        let (_, ts) ← expectPunct '{' ts
        let (body, ts) ← parseStatements n ts
        return (.forEach binding source body, ts)
      else reject .statementKeyword (⟨.ident word, span⟩ :: rest)
  | _ + 1, ts => reject .statement ts

end

/-- The members of a declaration, up to and with its closing brace: at most one
render block. -/
def parseMembers (n : Nat) : List Lexeme → Except Rejection (Option (List Statement) × List Lexeme)
  | ⟨.punct '}', _⟩ :: rest => .ok (none, rest)
  | ⟨.ident "render", _⟩ :: rest => do
      let (_, ts) ← expectPunct '{' rest
      let (block, ts) ← parseStatements n ts
      match ts with
      | ⟨.punct '}', _⟩ :: rest => return (some block, rest)
      | ⟨.ident "render", span⟩ :: rest =>
          .error { problem := .duplicateRender, rest := ⟨.ident "render", span⟩ :: rest }
      | ts => reject .member ts
  | ts => reject .member ts

/-- The word that says which kind of declaration follows. -/
def parseKind : List Lexeme → Except Rejection (DeclarationKind × List Lexeme)
  | ⟨.ident "class", _⟩ :: rest => .ok (.classType, rest)
  | ⟨.ident "interface", _⟩ :: rest => .ok (.interfaceType, rest)
  | ts => reject .declaration ts

def parseDeclaration (n : Nat) (ts : List Lexeme) :
    Except Rejection (Declaration × List Lexeme) := do
  let (attributes, ts) ← parseAttributes n ts
  let (kind, ts) ← parseKind ts
  let ((names, span), ts) ← parseDotted ts
  let (bases, ts) ← parseHeritage n ts
  let (_, ts) ← expectPunct '{' ts
  let (render, ts) ← parseMembers n ts
  return ({ attributes, kind, name := Text.joinDots names, bases, render, span }, ts)

/-- Declarations up to the last lexeme. -/
def parseTypes : Nat → List Lexeme → Except Rejection (List Declaration)
  | _, [] => .ok []
  | 0, ts => .error { problem := .expected .declaration, rest := ts }
  | n + 1, ts => do
      let (declaration, ts) ← parseDeclaration n ts
      let declarations ← parseTypes n ts
      return declaration :: declarations

/-- The declarations that a whole list of lexemes spells. -/
def parseLexemes (ts : List Lexeme) : Except Rejection (List Declaration) :=
  parseTypes (ts.length + 1) ts

/-- The token a rejection found, in words. -/
def describeFound : List Lexeme → String
  | ⟨.ident name, _⟩ :: _ => "`" ++ name ++ "`"
  | ⟨.str _, _⟩ :: _ => "string literal"
  | ⟨.punct c, _⟩ :: _ => "`" ++ String.singleton c ++ "`"
  | [] => "end of file"

def Rejection.message (r : Rejection) : String :=
  match r.problem with
  | .expected what => "expected " ++ what.describe ++ ", found " ++ describeFound r.rest
  | .duplicateRender => "duplicate `render` member"

/-- What a stream spells, or the message and place of its first fault: a
rejection at the end of the lexemes gives way to the lexical fault there. -/
def TokenStream.parse (s : TokenStream) : Except (String × Span) (List Declaration) :=
  match parseLexemes s.lexemes, s.ending with
  | .ok types, .eof _ => .ok types
  | .ok _, .fault error span => .error (error.message, span)
  | .error r, ending =>
      match r.rest, ending with
      | l :: _, _ => .error (r.message, l.span)
      | [], .eof offset => .error (r.message, { start := offset, len := 0 })
      | [], .fault error span => .error (error.message, span)

/-- Parse the source text of the view at `path`. -/
def parse (path source : String) : Except Diagnostic Tree :=
  match (TokenStream.ofSource source).parse with
  | .ok types => .ok { path, source, types }
  | .error (message, span) => .error (Diagnostic.ofSpan path source span message)

end ViewPress.Source
