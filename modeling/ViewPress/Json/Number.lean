import ViewPress.Decimal.Shortest

/-!
# JSON numbers

A number written without fraction and exponent that fits 64 bits stays an
integer; every other number is a double. Doubles are read by scaling the leading
digits, as many as fit 64 bits, with a power of ten, so the result may be off by a
rounding from the nearest double. They are written with the fewest digits that
read back.
-/

namespace ViewPress

/-- An integer, or a double given by its bits. -/
inductive Number where
  | int (value : Int)
  | float (bits : UInt64)
  deriving DecidableEq, Repr

/-- A number as it is written. A fraction or exponent that is not written is
empty. -/
structure Numeral where
  negative : Bool
  whole : List Nat
  fraction : List Nat := []
  exponent : Option (Bool × List Nat) := none
  deriving DecidableEq, Repr

namespace Number

def maxUnsigned : Nat := 0xFFFFFFFFFFFFFFFF

/-- Appends digits to a number as long as it fits 64 bits: the number and the
digits left over. -/
def appendDigits (n : Nat) : List Nat → Nat × List Nat
  | [] => (n, [])
  | d :: ds => if maxUnsigned < n * 10 + d then (n, d :: ds) else appendDigits (n * 10 + d) ds

/-- The value of a list of digits. -/
def ofDigits (ds : List Nat) : Nat :=
  ds.foldl (fun n d => n * 10 + d) 0

def powerOfTen (n : Nat) : Float :=
  Float.ofScientific 1 false n

/-- Divides by powers of ten, 308 at a time, until the exponent is used up. -/
def scaleDown : Nat → Float → Nat → Float
  | 0, f, _ => f
  | fuel + 1, f, n =>
      if n ≤ 308 then f / powerOfTen n
      else if f == 0.0 then f
      else scaleDown fuel (f / powerOfTen 308) (n - 308)

/-- The double `significand * 10 ^ exponent`, if it is in range. -/
def scale (negative : Bool) (significand : Nat) (exponent : Int) : Option Number :=
  let f := significand.toUInt64.toFloat
  let signed (f : Float) : Number := .float (if negative then (-f).toBits else f.toBits)
  if 0 ≤ exponent then
    if exponent ≤ 308 then
      let f := f * powerOfTen exponent.toNat
      if f.isInf then none else some (signed f)
    else if significand = 0 then some (signed f)
    else none
  else some (signed (scaleDown 8 f (-exponent).toNat))

/-- The value of a numeral, unless it is out of range. -/
def ofNumeral (n : Numeral) : Option Number :=
  let (significand, left) := appendDigits 0 n.whole
  if left.isEmpty && n.fraction.isEmpty && n.exponent.isNone then
    if !n.negative then some (.int significand)
    else if significand = 0 ∨ 0x8000000000000000 < significand then scale true significand 0
    else some (.int (-significand))
  else
    let (significand, beyond) := appendDigits significand n.fraction
    let places : Int := left.length - ((n.fraction.length - beyond.length : Nat) : Int)
    match n.exponent with
    | none => scale n.negative significand places
    | some (negativeExponent, digits) =>
        let e := ofDigits digits
        if 0x7FFFFFFF < e then
          if significand ≠ 0 ∧ !negativeExponent then none else scale n.negative 0 0
        else scale n.negative significand (if negativeExponent then places - e else places + e)

/-- Whether a number counts as true in a condition. -/
def isNonzero : Number → Bool
  | .int value => value != 0
  | .float bits => bits &&& 0x7FFFFFFFFFFFFFFF != 0

/-- Digits in positional form when the first has an exponent from -5 to 15, with
at least one digit after the point, and in scientific form otherwise. -/
def layout (digits : List Char) (exponent : Int) : List Char :=
  if -5 ≤ exponent ∧ exponent < 0 then
    '0' :: '.' :: List.replicate (-exponent - 1).toNat '0' ++ digits
  else if 0 ≤ exponent ∧ exponent ≤ 15 then
    let places := exponent.toNat + 1
    let whole := digits.take places ++ List.replicate (places - digits.length) '0'
    let fraction := digits.drop places
    whole ++ '.' :: (if fraction.isEmpty then ['0'] else fraction)
  else
    let mantissa :=
      match digits with
      | d :: e :: rest => d :: '.' :: e :: rest
      | ds => ds
    let sign := if exponent < 0 then '-' else '+'
    mantissa ++ 'e' :: sign :: Nat.toDigits 10 exponent.natAbs

/-- The text of a number. -/
def text : Number → String
  | .int value => toString value
  | .float bits =>
      let sign := if bits >>> 63 == 0 then [] else ['-']
      let exponent := ((bits >>> 52) &&& 0x7FF).toNat
      let fraction := (bits &&& 0xFFFFFFFFFFFFF).toNat
      if exponent = 0 ∧ fraction = 0 then String.ofList (sign ++ ['0', '.', '0'])
      else
        let (digits, e) := (Decimal.Rounding.ofFields exponent fraction).shortest
        String.ofList (sign ++ layout digits e)

end Number

end ViewPress
