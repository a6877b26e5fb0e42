import ViewPress.Json.Basic
import ViewPress.Text.Hex

/-!
# Writing JSON

Compact text has no blanks; pretty text has one item a line, two blanks a level,
and no blanks inside what is empty. In strings the quote, the backslash and the
characters below U+0020 are escaped, and nothing else.
-/

namespace ViewPress.Json

def escapeChar (c : Char) : List Char :=
  if c = '"' then ['\\', '"']
  else if c = '\\' then ['\\', '\\']
  else if c = '\n' then ['\\', 'n']
  else if c = '\r' then ['\\', 'r']
  else if c = '\t' then ['\\', 't']
  else if c.toNat = 0x08 then ['\\', 'b']
  else if c.toNat = 0x0C then ['\\', 'f']
  else if c.toNat < 0x20 then ['\\', 'u', '0', '0'] ++ Text.hexOfByte c.toNat.toUInt8
  else [c]

def quote (s : String) : String :=
  String.ofList ('"' :: s.toList.flatMap escapeChar ++ ['"'])

mutual

def compact : Json → String
  | .null => "null"
  | .bool b => if b then "true" else "false"
  | .num n => n.text
  | .str s => quote s
  | .arr items => "[" ++ compactItems items ++ "]"
  | .obj members => "\x7b" ++ compactMembers members ++ "\x7d"
  | .garbled => "null"

def compactItems : List Json → String
  | [] => ""
  | [j] => compact j
  | j :: js => compact j ++ "," ++ compactItems js

def compactMembers : List (String × Json) → String
  | [] => ""
  | [(key, j)] => quote key ++ ":" ++ compact j
  | (key, j) :: rest => quote key ++ ":" ++ compact j ++ "," ++ compactMembers rest

end

/-- A line break and the blanks of a level. -/
def newline (level : Nat) : String :=
  String.ofList ('\n' :: List.replicate (2 * level) ' ')

mutual

def pretty (level : Nat) : Json → String
  | .arr [] => "[]"
  | .arr items =>
      "[" ++ newline (level + 1) ++ prettyItems (level + 1) items ++ newline level ++ "]"
  | .obj [] => "\x7b\x7d"
  | .obj members =>
      "\x7b" ++ newline (level + 1) ++ prettyMembers (level + 1) members ++ newline level
        ++ "\x7d"
  | .null => "null"
  | .bool b => if b then "true" else "false"
  | .num n => n.text
  | .str s => quote s
  | .garbled => "null"

def prettyItems (level : Nat) : List Json → String
  | [] => ""
  | [j] => pretty level j
  | j :: js => pretty level j ++ "," ++ newline level ++ prettyItems level js

def prettyMembers (level : Nat) : List (String × Json) → String
  | [] => ""
  | [(key, j)] => quote key ++ ": " ++ pretty level j
  | (key, j) :: rest =>
      quote key ++ ": " ++ pretty level j ++ "," ++ newline level ++ prettyMembers level rest

end

end ViewPress.Json
