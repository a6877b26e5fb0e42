import ViewPress.Toml.Basic

/-!
# Reading TOML

A reader of TOML 1.0 documents. What is wrong with a document is not told apart.
Loops spend a budget, one unit for every round; the number of characters is enough,
because every round uses up at least one.
-/

namespace ViewPress.Toml

def isBlank (c : Char) : Bool := c == ' ' || c == '\t'

/-- The characters that comments and strings may hold as they are. -/
def isPlain (c : Char) : Bool :=
  c == '\t' || (0x20 ≤ c.toNat && c.toNat != 0x7F)

def skipBlank (cs : List Char) : List Char :=
  cs.dropWhile isBlank

def skipComment : List Char → List Char
  | '#' :: cs => cs.dropWhile isPlain
  | cs => cs

/-- What follows a line break, if one stands here. -/
def newline? : List Char → Option (List Char)
  | '\n' :: cs => some cs
  | '\r' :: '\n' :: cs => some cs
  | _ => none

/-- What follows the end of a line: blanks, a comment and a line break. -/
def lineEnd? (cs : List Char) : Option (List Char) :=
  match skipComment (skipBlank cs) with
  | [] => some []
  | cs => newline? cs

/-- Drops blanks, comments and line breaks. -/
def skipLines : Nat → List Char → List Char
  | 0, cs => cs
  | n + 1, cs =>
      let cs := skipComment (skipBlank cs)
      match newline? cs with
      | some rest => skipLines n rest
      | none => cs

/-! ## Strings -/

def hexDigit? (c : Char) : Option Nat :=
  if c.isDigit then some (c.toNat - '0'.toNat)
  else if 'a' ≤ c && c ≤ 'f' then some (c.toNat - 'a'.toNat + 10)
  else if 'A' ≤ c && c ≤ 'F' then some (c.toNat - 'A'.toNat + 10)
  else none

/-- The character with a code point given by hexadecimal digits. -/
def scalarValue? (digits : List Char) : Option Char := do
  let n ← digits.foldlM (fun n c => (hexDigit? c).map (n * 16 + ·)) 0
  if n < 0xD800 || (0xDFFF < n && n < 0x110000) then some (Char.ofNat n) else none

/-- The character of an escape, from after its backslash. -/
def escape? : List Char → Option (Char × List Char)
  | 'b' :: cs => some ('\x08', cs)
  | 't' :: cs => some ('\t', cs)
  | 'n' :: cs => some ('\n', cs)
  | 'f' :: cs => some ('\x0C', cs)
  | 'r' :: cs => some ('\r', cs)
  | '"' :: cs => some ('"', cs)
  | '\\' :: cs => some ('\\', cs)
  | 'u' :: a :: b :: c :: d :: cs => (scalarValue? [a, b, c, d]).map (·, cs)
  | 'U' :: a :: b :: c :: d :: e :: f :: g :: h :: cs =>
      (scalarValue? [a, b, c, d, e, f, g, h]).map (·, cs)
  | _ => none

def readBasic : Nat → List Char → Option (List Char × List Char)
  | 0, _ => none
  | _ + 1, '"' :: cs => some ([], cs)
  | n + 1, '\\' :: cs => do
      let (c, cs) ← escape? cs
      let (text, cs) ← readBasic n cs
      return (c :: text, cs)
  | n + 1, c :: cs =>
      if isPlain c then do
        let (text, cs) ← readBasic n cs
        return (c :: text, cs)
      else none
  | _ + 1, [] => none

def readLiteral : List Char → Option (List Char × List Char)
  | '\'' :: cs => some ([], cs)
  | c :: cs =>
      if isPlain c then do
        let (text, cs) ← readLiteral cs
        return (c :: text, cs)
      else none
  | [] => none

/-- What follows a line break behind a backslash and all blanks after it. -/
def continuation? (n : Nat) (cs : List Char) : Option (List Char) :=
  (newline? (skipBlank cs)).map (skip n)
where
  skip : Nat → List Char → List Char
    | 0, cs => cs
    | n + 1, cs =>
        match newline? (skipBlank cs) with
        | some rest => skip n rest
        | none => skipBlank cs

/-- The rest of a text over several lines, given how its delimiter is written, and
what a backslash does in it. Up to two delimiters may stand before the closing
three. -/
def readLines (quote : Char) (escapes : Bool) : Nat → List Char → Option (List Char × List Char)
  | 0, _ => none
  | _ + 1, [] => none
  | n + 1, c :: cs =>
      let quotes := ((c :: cs).takeWhile (· == quote)).length
      if 3 ≤ quotes then
        let extra := min (quotes - 3) 2
        some (List.replicate extra quote, (c :: cs).drop (3 + extra))
      else if escapes && c == '\\' then
        match continuation? n cs with
        | some cs => readLines quote escapes n cs
        | none => do
            let (e, cs) ← escape? cs
            let (text, cs) ← readLines quote escapes n cs
            return (e :: text, cs)
      else
        match newline? (c :: cs) with
        | some cs => do
            let (text, cs) ← readLines quote escapes n cs
            return ('\n' :: text, cs)
        | none =>
            if isPlain c then do
              let (text, cs) ← readLines quote escapes n cs
              return (c :: text, cs)
            else none

/-- The text without a line break at its start. -/
def dropNewline (cs : List Char) : List Char :=
  (newline? cs).getD cs

/-- A string of any of the four kinds. -/
def readString (cs : List Char) : Option (String × List Char) := do
  let (text, cs) ←
    match cs with
    | '"' :: '"' :: '"' :: cs => readLines '"' true (cs.length + 1) (dropNewline cs)
    | '\'' :: '\'' :: '\'' :: cs => readLines '\'' false (cs.length + 1) (dropNewline cs)
    | '"' :: cs => readBasic (cs.length + 1) cs
    | '\'' :: cs => readLiteral cs
    | _ => none
  return (String.ofList text, cs)

/-! ## Keys -/

def isBareKey (c : Char) : Bool :=
  c.isAlphanum || c == '_' || c == '-'

/-- One segment of a key: bare, or a string on one line. -/
def readSegment : List Char → Option (String × List Char)
  | '"' :: cs => (readBasic (cs.length + 1) cs).map fun (text, cs) => (String.ofList text, cs)
  | '\'' :: cs => (readLiteral cs).map fun (text, cs) => (String.ofList text, cs)
  | cs =>
      match cs.takeWhile isBareKey with
      | [] => none
      | name => some (String.ofList name, cs.dropWhile isBareKey)

/-- A dotted key: the segments before the last, the last, and what follows. -/
def readKey : Nat → List Char → Option (List String × String × List Char)
  | 0, _ => none
  | n + 1, cs => do
      let (first, cs) ← readSegment (skipBlank cs)
      match skipBlank cs with
      | '.' :: cs => do
          let (path, last, cs) ← readKey n cs
          return (first :: path, last, cs)
      | cs => return ([], first, cs)

/-! ## Numbers, dates and times -/

/-- Digits with single underscores between them. -/
def isDigits (digit : Char → Bool) : List Char → Bool
  | [] => false
  | [c] => digit c
  | c :: '_' :: cs => digit c && isDigits digit cs
  | c :: cs => digit c && isDigits digit cs

def isHexDigit (c : Char) : Bool := (hexDigit? c).isSome

def dropSign : List Char → List Char
  | '+' :: cs => cs
  | '-' :: cs => cs
  | cs => cs

/-- Decimal digits without a zero in front of others. -/
def isDecimal (cs : List Char) : Bool :=
  isDigits Char.isDigit cs && (cs.length == 1 || cs.head? != some '0')

/-- The value of the digits of a number. -/
def digitsValue (base : Nat) (cs : List Char) : Nat :=
  (cs.filterMap hexDigit?).foldl (fun n d => n * base + d) 0

/-- The largest integer there is; the smallest is one further from zero. -/
def maxInteger : Nat := 0x7FFFFFFFFFFFFFFF

def isInteger : List Char → Bool
  | '0' :: 'x' :: cs => isDigits isHexDigit cs && digitsValue 16 cs ≤ maxInteger
  | '0' :: 'o' :: cs =>
      isDigits (fun c => '0' ≤ c && c ≤ '7') cs && digitsValue 8 cs ≤ maxInteger
  | '0' :: 'b' :: cs => isDigits (fun c => c == '0' || c == '1') cs && digitsValue 2 cs ≤ maxInteger
  | cs =>
      let limit := if cs.head? == some '-' then maxInteger + 1 else maxInteger
      isDecimal (dropSign cs) && digitsValue 10 (dropSign cs) ≤ limit

def isExponent (cs : List Char) : Bool :=
  isDigits Char.isDigit (dropSign cs)

def isFloat (cs : List Char) : Bool :=
  let cs := dropSign cs
  let whole := cs.takeWhile fun c => c.isDigit || c == '_'
  cs == ['i', 'n', 'f'] || cs == ['n', 'a', 'n'] ||
    (isDecimal whole &&
      match cs.drop whole.length with
      | '.' :: rest =>
          let fraction := rest.takeWhile fun c => c.isDigit || c == '_'
          isDigits Char.isDigit fraction &&
            match rest.drop fraction.length with
            | [] => true
            | e :: rest => (e == 'e' || e == 'E') && isExponent rest
      | e :: rest => (e == 'e' || e == 'E') && isExponent rest
      | [] => false)

/-- The value of exactly `n` digits at the front. -/
def fixedDigits? (n : Nat) (cs : List Char) : Option (Nat × List Char) :=
  let digits := cs.take n
  if digits.length == n && digits.all Char.isDigit then
    some (digitsValue 10 digits, cs.drop n)
  else none

def readChar (p : Char → Bool) : List Char → Option (List Char)
  | c :: cs => if p c then some cs else none
  | [] => none

def daysIn (year month : Nat) : Nat :=
  if month == 2 then
    if year % 4 == 0 && (year % 100 != 0 || year % 400 == 0) then 29 else 28
  else if month == 4 || month == 6 || month == 9 || month == 11 then 30
  else 31

def readDate (cs : List Char) : Option (List Char) := do
  let (year, cs) ← fixedDigits? 4 cs
  let (month, cs) ← fixedDigits? 2 (← readChar (· == '-') cs)
  let (day, cs) ← fixedDigits? 2 (← readChar (· == '-') cs)
  if 1 ≤ month && month ≤ 12 && 1 ≤ day && day ≤ daysIn year month then some cs else none

def readTime (cs : List Char) : Option (List Char) := do
  let (hour, cs) ← fixedDigits? 2 cs
  let (minute, cs) ← fixedDigits? 2 (← readChar (· == ':') cs)
  let (second, cs) ← fixedDigits? 2 (← readChar (· == ':') cs)
  if hour ≤ 23 && minute ≤ 59 && second ≤ 60 then
    match cs with
    | '.' :: d :: cs => if d.isDigit then some (cs.dropWhile Char.isDigit) else none
    | cs => some cs
  else none

def readOffset : List Char → Option (List Char)
  | [] => some []
  | c :: cs =>
      if c == 'Z' || c == 'z' then some cs
      else if c == '+' || c == '-' then do
        let (hour, cs) ← fixedDigits? 2 cs
        let (minute, cs) ← fixedDigits? 2 (← readChar (· == ':') cs)
        if hour ≤ 23 && minute ≤ 59 then some cs else none
      else some (c :: cs)

/-- What follows a date, a time, or both. -/
def readDateTime (cs : List Char) : Option (List Char) :=
  match readDate cs with
  | none => readTime cs
  | some rest =>
      match rest with
      | c :: after =>
          if c == 'T' || c == 't' then (readTime after).bind readOffset
          else if c == ' ' then
            match readTime after with
            | some after => readOffset after
            | none => some rest
          else some rest
      | [] => some []

/-- The characters of numbers. -/
def isNumeric (c : Char) : Bool :=
  c.isAlphanum || c == '_' || c == '+' || c == '-' || c == '.'

/-- What follows a number, date or time. -/
def readScalar (cs : List Char) : Option (List Char) :=
  match readDateTime cs with
  | some rest => some rest
  | none =>
      let word := cs.takeWhile isNumeric
      if isInteger word || isFloat word then some (cs.dropWhile isNumeric) else none

/-! ## Values -/

mutual

def readValue : Nat → List Char → Option (Toml × List Char)
  | 0, _ => none
  | _ + 1, [] => none
  | n + 1, c :: cs =>
      if c == '"' || c == '\'' then
        (readString (c :: cs)).map fun (s, cs) => (.str s, cs)
      else if c == '[' then (readItems n cs).map fun (items, cs) => (.array items, cs)
      else if c == '{' then
        match skipBlank cs with
        | '}' :: cs => some (.table .inline [], cs)
        | cs => (readPairs n [] cs).map fun (entries, cs) => (.table .inline entries, cs)
      else
        let word := (c :: cs).takeWhile isNumeric
        if word == "true".toList then some (.bool true, (c :: cs).drop 4)
        else if word == "false".toList then some (.bool false, (c :: cs).drop 5)
        else (readScalar (c :: cs)).map (.scalar, ·)

/-- The items of an array up to and with its bracket. A comma may follow the last. -/
def readItems : Nat → List Char → Option (List Toml × List Char)
  | 0, _ => none
  | n + 1, cs =>
      match skipLines n cs with
      | ']' :: cs => some ([], cs)
      | cs => do
          let (item, cs) ← readValue n cs
          match skipLines n cs with
          | ']' :: cs => return ([item], cs)
          | ',' :: cs => do
              let (items, cs) ← readItems n cs
              return (item :: items, cs)
          | _ => none

/-- The pairs of an inline table up to and with its brace, on one line. -/
def readPairs : Nat → Entries → List Char → Option (Entries × List Char)
  | 0, _, _ => none
  | n + 1, entries, cs => do
      let (path, key, cs) ← readKey n cs
      match skipBlank cs with
      | '=' :: cs => do
          let (value, cs) ← readValue n (skipBlank cs)
          let entries ← insert value key path entries
          match skipBlank cs with
          | '}' :: cs => return (entries, cs)
          | ',' :: cs => readPairs n entries cs
          | _ => none
      | _ => none

end

/-! ## Documents -/

/-- The lines of a document after those that gave `root`. Pairs go to the table of
the header `current`. -/
def readDocument : Nat → List String → Entries → List Char → Option Entries
  | 0, _, _, _ => none
  | n + 1, current, root, cs =>
      match skipBlank cs with
      | [] => some root
      | '[' :: '[' :: cs => do
          let (path, key, cs) ← readKey n cs
          match cs with
          | ']' :: ']' :: cs =>
              readDocument n (path ++ [key]) (← openArray path key root) (← lineEnd? cs)
          | _ => none
      | '[' :: cs => do
          let (path, key, cs) ← readKey n cs
          match cs with
          | ']' :: cs =>
              readDocument n (path ++ [key]) (← openTable path key root) (← lineEnd? cs)
          | _ => none
      | cs =>
          match lineEnd? cs with
          | some rest => readDocument n current root rest
          | none => do
              let (path, key, cs) ← readKey n cs
              match cs with
              | '=' :: cs => do
                  let (value, cs) ← readValue n (skipBlank cs)
                  let root ← atHeader (insert value key path) current root
                  readDocument n current root (← lineEnd? cs)
              | _ => none

/-- The table that a document fills. A byte order mark at its start is skipped. -/
def read? (text : String) : Option Entries :=
  let cs :=
    match text.toList with
    | '﻿' :: cs => cs
    | cs => cs
  readDocument (2 * cs.length + 2) [] [] cs

end ViewPress.Toml
