import ViewPress.Json.Basic
import ViewPress.Text.Utf8

/-!
# Reading JSON

JSON is read from bytes, so that text which is not UTF-8 is still well formed
inside values that nobody looks at. Loops spend a budget, one unit for every round;
the number of bytes is enough, because every round uses up at least one.
-/

namespace ViewPress.Json

def isSpace (b : UInt8) : Bool :=
  b == 0x20 || b == 0x09 || b == 0x0A || b == 0x0D

def skipSpace (bs : List UInt8) : List UInt8 :=
  bs.dropWhile isSpace

/-- What a string is made of: bytes as they stand, and UTF-16 units from `\u`. -/
inductive Piece where
  | byte (b : UInt8)
  | unit (n : Nat)
  deriving DecidableEq, Repr

def hexDigit? (b : UInt8) : Option Nat :=
  if 0x30 ≤ b && b ≤ 0x39 then some (b.toNat - 0x30)
  else if 0x41 ≤ b && b ≤ 0x46 then some (b.toNat - 0x41 + 10)
  else if 0x61 ≤ b && b ≤ 0x66 then some (b.toNat - 0x61 + 10)
  else none

def hexUnit? (a b c d : UInt8) : Option Nat := do
  return ((← hexDigit? a) * 16 + (← hexDigit? b)) * 256 + (← hexDigit? c) * 16 + (← hexDigit? d)

/-- The byte that a one-letter escape stands for. -/
def escape? (b : UInt8) : Option UInt8 :=
  if b == 0x22 || b == 0x5C || b == 0x2F then some b
  else if b == 0x62 then some 0x08
  else if b == 0x66 then some 0x0C
  else if b == 0x6E then some 0x0A
  else if b == 0x72 then some 0x0D
  else if b == 0x74 then some 0x09
  else none

/-- Reads a string from after its opening quote. -/
def readPieces : List UInt8 → Option (List Piece × List UInt8)
  | [] => none
  | 0x22 :: rest => some ([], rest)
  | 0x5C :: 0x75 :: a :: b :: c :: d :: rest => do
      let n ← hexUnit? a b c d
      let (pieces, rest) ← readPieces rest
      return (.unit n :: pieces, rest)
  | 0x5C :: e :: rest => do
      let b ← escape? e
      let (pieces, rest) ← readPieces rest
      return (.byte b :: pieces, rest)
  | b :: rest =>
      if b < 0x20 || b == 0x5C then none
      else do
        let (pieces, rest) ← readPieces rest
        return (.byte b :: pieces, rest)

def isHighSurrogate (n : Nat) : Bool := 0xD800 ≤ n && n ≤ 0xDBFF
def isLowSurrogate (n : Nat) : Bool := 0xDC00 ≤ n && n ≤ 0xDFFF

/-- The bytes of a string. Fails on a surrogate that is not part of a pair. -/
def assemble? : List Piece → Option (List UInt8)
  | [] => some []
  | .byte b :: rest => (assemble? rest).map (b :: ·)
  | .unit hi :: .unit lo :: rest =>
      if isHighSurrogate hi then
        if isLowSurrogate lo then
          let c := Char.ofNat (0x10000 + (hi - 0xD800) * 0x400 + (lo - 0xDC00))
          (assemble? rest).map (String.utf8EncodeChar c ++ ·)
        else none
      else if isLowSurrogate hi then none
      else (assemble? (.unit lo :: rest)).map (String.utf8EncodeChar (Char.ofNat hi) ++ ·)
  | .unit n :: rest =>
      if isHighSurrogate n || isLowSurrogate n then none
      else (assemble? rest).map (String.utf8EncodeChar (Char.ofNat n) ++ ·)

/-- The text of a string, unless it is not Unicode. -/
def pieceText? (pieces : List Piece) : Option String := do
  Text.ofUtf8? (← assemble? pieces)

def isDigit (b : UInt8) : Bool := 0x30 ≤ b && b ≤ 0x39

/-- The digits at the front. -/
def takeDigits (bs : List UInt8) : List Nat × List UInt8 :=
  ((bs.takeWhile isDigit).map fun b => b.toNat - 0x30, bs.dropWhile isDigit)

/-- One or more digits. -/
def someDigits? (bs : List UInt8) : Option (List Nat × List UInt8) :=
  match takeDigits bs with
  | ([], _) => none
  | found => some found

/-- The digits before the point: a single zero, or digits that start with none. -/
def readWhole : List UInt8 → Option (List Nat × List UInt8)
  | 0x30 :: rest => if rest.head?.any isDigit then none else some ([0], rest)
  | bs => someDigits? bs

def readFraction : List UInt8 → Option (List Nat × List UInt8)
  | 0x2E :: rest => someDigits? rest
  | bs => some ([], bs)

/-- The exponent, with its sign. -/
def readExponent : List UInt8 → Option (Option (Bool × List Nat) × List UInt8)
  | [] => some (none, [])
  | b :: rest =>
      if b == 0x65 || b == 0x45 then do
        let (negative, rest) :=
          match rest with
          | 0x2B :: rest => (false, rest)
          | 0x2D :: rest => (true, rest)
          | rest => (false, rest)
        let (digits, rest) ← someDigits? rest
        return (some (negative, digits), rest)
      else some (none, b :: rest)

def readNumeral (bs : List UInt8) : Option (Numeral × List UInt8) := do
  let (negative, bs) :=
    match bs with
    | 0x2D :: rest => (true, rest)
    | bs => (false, bs)
  let (whole, bs) ← readWhole bs
  let (fraction, bs) ← readFraction bs
  let (exponent, bs) ← readExponent bs
  return ({ negative, whole, fraction, exponent }, bs)

/-- What follows a fixed word, if it stands here. -/
def readWord (word : String) (bs : List UInt8) : Option (List UInt8) :=
  (Text.utf8 word).isPrefixOf? bs

/-- The value of an object, unless one of its keys is not Unicode. -/
def ofMembers (members : List (Option String × Json)) : Json :=
  match members.mapM fun (key, j) => key.map (·, j) with
  | some members => .obj members
  | none => .garbled

mutual

/-- Reads a value off the front. -/
def readValue : Nat → List UInt8 → Option (Json × List UInt8)
  | 0, _ => none
  | n + 1, bs =>
      match skipSpace bs with
      | [] => none
      | b :: rest =>
          if b == 0x22 then do
            let (pieces, rest) ← readPieces rest
            return ((pieceText? pieces).elim .garbled .str, rest)
          else if b == 0x5B then
            match skipSpace rest with
            | 0x5D :: rest => some (.arr [], rest)
            | rest => do
                let (items, rest) ← readItems n rest
                return (.arr items, rest)
          else if b == 0x7B then
            match skipSpace rest with
            | 0x7D :: rest => some (.obj [], rest)
            | rest => do
                let (members, rest) ← readMembers n rest
                return (ofMembers members, rest)
          else if b == 0x6E then (readWord "null" (b :: rest)).map (.null, ·)
          else if b == 0x74 then (readWord "true" (b :: rest)).map (.bool true, ·)
          else if b == 0x66 then (readWord "false" (b :: rest)).map (.bool false, ·)
          else do
            let (numeral, rest) ← readNumeral (b :: rest)
            return ((Number.ofNumeral numeral).elim .garbled .num, rest)

/-- Reads one or more items and the closing bracket. -/
def readItems : Nat → List UInt8 → Option (List Json × List UInt8)
  | 0, _ => none
  | n + 1, bs => do
      let (item, rest) ← readValue n bs
      match skipSpace rest with
      | 0x5D :: rest => return ([item], rest)
      | 0x2C :: rest => do
          let (items, rest) ← readItems n rest
          return (item :: items, rest)
      | _ => none

/-- Reads one or more members and the closing brace. -/
def readMembers : Nat → List UInt8 → Option (List (Option String × Json) × List UInt8)
  | 0, _ => none
  | n + 1, bs =>
      match skipSpace bs with
      | 0x22 :: rest => do
          let (pieces, rest) ← readPieces rest
          match skipSpace rest with
          | 0x3A :: rest => do
              let (value, rest) ← readValue n rest
              match skipSpace rest with
              | 0x7D :: rest => return ([(pieceText? pieces, value)], rest)
              | 0x2C :: rest => do
                  let (members, rest) ← readMembers n rest
                  return ((pieceText? pieces, value) :: members, rest)
              | _ => none
          | _ => none
      | _ => none

end

/-- The value that a whole byte string spells. -/
def read? (bs : List UInt8) : Option Json :=
  match readValue (bs.length + 1) bs with
  | some (j, rest) => if (skipSpace rest).isEmpty then some j else none
  | none => none

/-- A model from its JSON text. -/
def model? (text : String) : Option Json :=
  (read? (Text.utf8 text)).bind (canonical? nestingLimit)

end ViewPress.Json
