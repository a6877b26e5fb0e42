/-!
# Hexadecimal text

Digests and code points are written with lowercase hexadecimal digits.
-/

namespace ViewPress.Text

/-- The lowercase hexadecimal digits of a number, without leading zeros. -/
def hexOfNat (n : Nat) : List Char :=
  Nat.toDigits 16 n

/-- The two lowercase hexadecimal digits of a byte. -/
def hexOfByte (b : UInt8) : List Char :=
  [Nat.digitChar (b.toNat / 16), Nat.digitChar (b.toNat % 16)]

/-- A byte string written with two digits a byte. -/
def hex (bytes : List UInt8) : String :=
  String.ofList (bytes.flatMap hexOfByte)

end ViewPress.Text
