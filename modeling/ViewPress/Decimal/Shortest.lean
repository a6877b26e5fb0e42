/-!
# Shortest decimals

A binary floating-point number is an integer times a power of two. Among the
decimals that round to it, the shortest are those with the fewest digits, and of
these the nearest is chosen; an exact tie goes to the even digit. Everything is
computed on naturals: for one digit count after the other, the two grid points
around the number are tried.
-/

namespace ViewPress.Decimal

/-- The positive number `num / den`, with the ends of the interval of numbers that
round to it, over the same denominator. The ends belong to it if `closed`. -/
structure Rounding where
  num : Nat
  den : Nat
  low : Nat
  high : Nat
  closed : Bool

/-- The interval of a positive double with the given exponent and fraction
fields. -/
def Rounding.ofFields (exponent fraction : Nat) : Rounding :=
  let m := if exponent = 0 then fraction else (1 <<< 52) + fraction
  let gap := if fraction = 0 ∧ 1 < exponent then 1 else 2
  let shift := max exponent 1
  -- the number is `4 * m * 2 ^ (shift - 1077)`
  let up := 1 <<< (shift - 1077)
  let down := 1 <<< (1077 - shift)
  { num := 4 * m * up, den := down, low := (4 * m - gap) * up, high := (4 * m + 2) * up,
    closed := m % 2 = 0 }

/-- The largest `e` with `10 ^ e` at most the number. -/
def Rounding.magnitude (r : Rounding) : Int :=
  if r.den ≤ r.num then ((Nat.toDigits 10 (r.num / r.den)).length : Int) - 1
  else
    let t := (Nat.toDigits 10 (r.den / r.num)).length
    if r.den ≤ r.num * Nat.pow 10 (t - 1) then 1 - (t : Int) else - (t : Int)

/-- The grid point with `n` digits that stands for the number, if one rounds to
it. The grid has the step `10 ^ (magnitude - n + 1)`. -/
def Rounding.digits? (r : Rounding) (n : Nat) : Option Nat :=
  let k := r.magnitude - n + 1
  let up := Nat.pow 10 k.toNat
  let down := Nat.pow 10 (-k).toNat
  -- a grid point `d` is the number `d * up / down`
  let den := r.den * up
  let num := r.num * down
  let inside (d : Nat) : Bool :=
    if r.closed then r.low * down ≤ d * den && d * den ≤ r.high * down
    else r.low * down < d * den && d * den < r.high * down
  let d := num / den
  let below := num - d * den
  let above := (d + 1) * den - num
  if inside d && inside (d + 1) then
    if below < above then some d
    else if above < below then some (d + 1)
    else if d % 2 = 0 then some d else some (d + 1)
  else if inside d then some d
  else if inside (d + 1) then some (d + 1)
  else none

/-- The shortest digits with at least `n` and fewer than `n + fuel` places. -/
def Rounding.search (r : Rounding) : Nat → Nat → Nat × Nat
  | n, 0 => (r.digits? n |>.getD 0, n)
  | n, fuel + 1 =>
      match r.digits? n with
      | some d => (d, n)
      | none => r.search (n + 1) fuel

/-- The digits of the shortest decimal and the exponent of its first digit. A grid
point that reaches the next power of ten counts as one there. -/
def Rounding.shortest (r : Rounding) : List Char × Int :=
  let (d, n) := r.search 1 16
  let text := Nat.toDigits 10 d
  let exponent := r.magnitude + ((text.length : Int) - n)
  let trimmed := (text.reverse.dropWhile (· == '0')).reverse
  (trimmed, exponent)

end ViewPress.Decimal
