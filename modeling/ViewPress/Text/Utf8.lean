/-!
# Text as bytes

Files hold bytes. `utf8` and `ofUtf8?` move between them and text; a byte string
that is not UTF-8 can still be shown, with one replacement character for each
maximal prefix of a sequence that cannot be completed.
-/

namespace ViewPress.Text

/-- The UTF-8 bytes of a text. -/
def utf8 (s : String) : List UInt8 :=
  s.toUTF8.data.toList

/-- The text whose UTF-8 bytes these are, if they are UTF-8. -/
def ofUtf8? (bytes : List UInt8) : Option String :=
  String.fromUTF8? ⟨bytes.toArray⟩

/-- The number of UTF-8 bytes of a run of characters. -/
def byteSize : List Char → Nat
  | [] => 0
  | c :: cs => c.utf8Size + byteSize cs

theorem byteSize_append (as bs : List Char) : byteSize (as ++ bs) = byteSize as + byteSize bs := by
  induction as with
  | nil => simp [byteSize]
  | cons a as ih =>
      rw [List.cons_append, byteSize, byteSize, ih]
      omega

theorem byteSize_pos {cs : List Char} (h : cs ≠ []) : 0 < byteSize cs := by
  cases cs with
  | nil => exact absurd rfl h
  | cons c cs =>
      have hchar := c.utf8Size_pos
      rw [byteSize]
      omega

/-- A byte that may follow the second byte of a sequence. -/
def isContinuation (b : UInt8) : Bool :=
  0x80 ≤ b && b ≤ 0xBF

/-- Whether `b` may be the second byte of the sequence that `lead` starts. The
ranges keep out overlong forms, surrogates and values past U+10FFFF. -/
def isSecond (lead b : UInt8) : Bool :=
  if lead == 0xE0 then 0xA0 ≤ b && b ≤ 0xBF
  else if lead == 0xED then 0x80 ≤ b && b ≤ 0x9F
  else if lead == 0xF0 then 0x90 ≤ b && b ≤ 0xBF
  else if lead == 0xF4 then 0x80 ≤ b && b ≤ 0x8F
  else isContinuation b

/-- The length of the sequence that a byte starts, or zero if it starts none. -/
def sequenceLength (lead : UInt8) : Nat :=
  if lead < 0x80 then 1
  else if 0xC2 ≤ lead && lead ≤ 0xDF then 2
  else if 0xE0 ≤ lead && lead ≤ 0xEF then 3
  else if 0xF0 ≤ lead && lead ≤ 0xF4 then 4
  else 0

/-- The character spelled by the payload bits of a sequence. -/
def assemble (lead : Nat) (rest : List UInt8) : Char :=
  Char.ofNat (rest.foldl (fun n b => n * 64 + (b.toNat - 0x80)) lead)

/-- The characters that the bytes spell, with `none` for each maximal prefix of
a sequence that goes wrong. -/
def pieces : List UInt8 → List (Option Char)
  | [] => []
  | b0 :: r0 =>
      match sequenceLength b0 with
      | 1 => some (assemble b0.toNat []) :: pieces r0
      | 2 =>
          match r0 with
          | b1 :: r1 =>
              if isSecond b0 b1 then some (assemble (b0.toNat - 0xC0) [b1]) :: pieces r1
              else none :: pieces (b1 :: r1)
          | [] => [none]
      | 3 =>
          match r0 with
          | b1 :: b2 :: r2 =>
              if isSecond b0 b1 then
                if isContinuation b2 then
                  some (assemble (b0.toNat - 0xE0) [b1, b2]) :: pieces r2
                else none :: pieces (b2 :: r2)
              else none :: pieces (b1 :: b2 :: r2)
          | [b1] => if isSecond b0 b1 then [none] else none :: pieces [b1]
          | [] => [none]
      | 4 =>
          match r0 with
          | b1 :: b2 :: b3 :: r3 =>
              if isSecond b0 b1 then
                if isContinuation b2 then
                  if isContinuation b3 then
                    some (assemble (b0.toNat - 0xF0) [b1, b2, b3]) :: pieces r3
                  else none :: pieces (b3 :: r3)
                else none :: pieces (b2 :: b3 :: r3)
              else none :: pieces (b1 :: b2 :: b3 :: r3)
          | [b1, b2] =>
              if isSecond b0 b1 then
                if isContinuation b2 then [none] else none :: pieces [b2]
              else none :: pieces [b1, b2]
          | [b1] => if isSecond b0 b1 then [none] else none :: pieces [b1]
          | [] => [none]
      | _ => none :: pieces r0

/-- The bytes shown as text, U+FFFD standing for what is not UTF-8. -/
def lossy (bytes : List UInt8) : String :=
  String.ofList ((pieces bytes).map fun p => p.getD '\uFFFD')

/-- How many bytes at the start are UTF-8. -/
def validUpTo (bytes : List UInt8) : Nat :=
  byteSize (((pieces bytes).takeWhile Option.isSome).filterMap id)

end ViewPress.Text
