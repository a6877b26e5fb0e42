import ViewPress.Digest.Blake3
import ViewPress.Json.Printer
import ViewPress.Json.Reader
import ViewPress.Module.Payload
import ViewPress.Text.Hex

/-!
# Module files

A module file is a header of 48 bytes and a JSON payload:

    0   4   magic "PVMD"
    4   2   format version, little-endian
    6   2   flags, reserved
    8   8   payload length, little-endian
    16  32  digest of the payload

The checks of a reader come in the order magic, header length, version, payload
length, digest, payload, and the first that fails decides. Which digest is used
matters to none of them, so it is a parameter.
-/

namespace ViewPress

/-- Why bytes are no module. -/
inductive FormatError where
  | badMagic
  | truncated (expected found : Nat)
  | unsupportedVersion (found : Nat)
  | checksumMismatch
  | malformed
  deriving DecidableEq, Repr

namespace Module

/-- The bytes `PVMD`. -/
def magic : List UInt8 := [0x50, 0x56, 0x4D, 0x44]

def formatVersion : Nat := 1

def headerLength : Nat := 48

end Module

def FormatError.message : FormatError → String
  | .badMagic => "not a module (bad magic)"
  | .truncated expected found =>
      "module is truncated: expected " ++ toString expected ++ " bytes, found " ++ toString found
  | .unsupportedVersion found =>
      "module format version " ++ toString found ++ " is not supported (expected "
        ++ toString Module.formatVersion ++ ")"
  | .checksumMismatch => "module checksum mismatch"
  | .malformed => "module payload is malformed"

/-- The `count` lowest bytes of a number, the lowest first. -/
def littleEndian : Nat → Nat → List UInt8
  | 0, _ => []
  | count + 1, n => n.toUInt8 :: littleEndian count (n / 256)

/-- The number whose bytes these are, the lowest first. -/
def ofLittleEndian (bytes : List UInt8) : Nat :=
  bytes.foldr (fun b n => b.toNat + 256 * n) 0

namespace Module

/-- The JSON payload of a module. -/
def payload (m : Module) : String :=
  m.toJson.compact

def header (hash : List UInt8 → Digest.Hash) (payload : List UInt8) : List UInt8 :=
  magic ++ littleEndian 2 formatVersion ++ littleEndian 2 0 ++ littleEndian 8 payload.length
    ++ (hash payload).toList

/-- A payload behind its header. -/
def frame (hash : List UInt8 → Digest.Hash) (payload : List UInt8) : List UInt8 :=
  header hash payload ++ payload

def encodeWith (hash : List UInt8 → Digest.Hash) (m : Module) : List UInt8 :=
  frame hash (Text.utf8 m.payload)

def decodeWith (hash : List UInt8 → Digest.Hash) (bytes : List UInt8) :
    Except FormatError Module :=
  if bytes.take 4 ≠ magic then .error .badMagic
  else if bytes.length < headerLength then .error (.truncated headerLength bytes.length)
  else
    let version := ofLittleEndian ((bytes.drop 4).take 2)
    let length := ofLittleEndian ((bytes.drop 8).take 8)
    let payload := bytes.drop headerLength
    if version ≠ formatVersion then .error (.unsupportedVersion version)
    else if payload.length ≠ length then
      .error (.truncated (min (headerLength + length) Number.maxUnsigned) bytes.length)
    else if (hash payload).toList ≠ (bytes.drop 16).take 32 then .error .checksumMismatch
    else
      match (Json.read? payload).bind ofJson? with
      | some m => .ok m
      | none => .error .malformed

/-- The bytes of a module file. -/
def encode (m : Module) : List UInt8 :=
  encodeWith Digest.blake3 m

/-- The module in a file. -/
def decode (bytes : List UInt8) : Except FormatError Module :=
  decodeWith Digest.blake3 bytes

/-- The pairs of view path and type name, sorted. -/
def tagPairs (m : Module) : List (String × String) :=
  (m.taggedTypes.map fun (path, t) => (path, t.name)).mergeSort
    fun a b => decide (a.1 < b.1) || (a.1 == b.1 && decide (a.2 ≤ b.2))

/-- What is digested for the fingerprint: path and name of each pair, each
followed by a zero byte. -/
def fingerprintInput (m : Module) : List UInt8 :=
  m.tagPairs.flatMap fun (path, name) => Text.utf8 path ++ 0 :: Text.utf8 name ++ [0]

/-- A text that two modules share if they tag the same types with the same paths. -/
def fingerprint (m : Module) : String :=
  Text.hex (Digest.blake3 m.fingerprintInput).toList

end Module

end ViewPress
