import ViewPress.Proofs.Codec
import ViewPress.Proofs.Outcomes

/-!
# Module files tell where they end

A file that was cut off while it was written, or to which something was added, must not
pass for a module. The header says how long the payload is, so the accepted files are
known byte for byte but for the two bytes of flags: they are `headerWith` and the payload
that the header was made for. None of them is a proper start of another.

The length is checked before any digest is taken, so that a cut file is refused for its
length wherever it was cut, and nothing is asked of the digest but that it has 32 bytes.
-/

namespace ViewPress

/-! ## Numbers in bytes -/

theorem ofLittleEndian_cons (b : UInt8) (bytes : List UInt8) :
    ofLittleEndian (b :: bytes) = b.toNat + 256 * ofLittleEndian bytes := rfl

theorem ofLittleEndian_lt (bytes : List UInt8) : ofLittleEndian bytes < 256 ^ bytes.length := by
  induction bytes with
  | nil => exact Nat.one_pos
  | cons b bytes ih =>
      have hb := b.toNat_lt
      rw [ofLittleEndian_cons, List.length_cons, Nat.pow_succ]
      omega

/-- Bytes are known by the number they stand for and by how many they are. -/
theorem littleEndian_ofLittleEndian (bytes : List UInt8) :
    littleEndian bytes.length (ofLittleEndian bytes) = bytes := by
  induction bytes with
  | nil => rfl
  | cons b bytes ih =>
      have hb := b.toNat_lt
      have hlow : (b.toNat + 256 * ofLittleEndian bytes).toUInt8 = b := by
        rw [← UInt8.toNat_inj, Nat.toUInt8, UInt8.toNat_ofNat']
        omega
      have hrest : (b.toNat + 256 * ofLittleEndian bytes) / 256 = ofLittleEndian bytes := by
        omega
      rw [List.length_cons, ofLittleEndian_cons, littleEndian, hlow, hrest, ih]

namespace Module

/-! ## The form of a file -/

/-- The header in front of a payload, with any flags: the magic, the version, the flags, the
length of the payload and its digest. -/
def headerWith (hash : List UInt8 → Digest.Hash) (flags payload : List UInt8) : List UInt8 :=
  magic ++ (littleEndian 2 formatVersion ++ (flags ++ (littleEndian 8 payload.length
    ++ (hash payload).toList)))

section Form

variable {hash : List UInt8 → Digest.Hash} {flags payload bytes : List UInt8} {m : Module}

theorem length_headerWith (hash : List UInt8 → Digest.Hash) (payload : List UInt8)
    (hflags : flags.length = 2) : (headerWith hash flags payload).length = headerLength := by
  simp only [headerWith, List.length_append, length_littleEndian, hflags, Vector.length_toList]
  rfl

/-- What a reader makes of a header with something behind it. -/
theorem decodeWith_headerWith (hflags : flags.length = 2) (hfits : payload.length < 2 ^ 64)
    (rest : List UInt8) :
    decodeWith hash (headerWith hash flags payload ++ rest) =
      if rest.length ≠ payload.length then
        .error (.truncated (min (headerLength + payload.length) Number.maxUnsigned)
          (headerLength + rest.length))
      else if (hash rest).toList ≠ (hash payload).toList then .error .checksumMismatch
      else ((Json.read? rest).bind ofJson?).elim (.error .malformed) .ok := by
  have hversion : ofLittleEndian (littleEndian 2 formatVersion) = formatVersion := rfl
  have hsize : ofLittleEndian (littleEndian 8 payload.length) = payload.length := by
    rw [ofLittleEndian_littleEndian]
    exact Nat.mod_eq_of_lt hfits
  simp only [headerWith, List.append_assoc]
  rw [decodeWith_fields hash rest (length_littleEndian 2 _) hflags (length_littleEndian 8 _)
    Vector.length_toList, hversion, if_neg (fun h => h rfl), hsize]

/-- A file with a whole header is made of the header's fields and a payload. -/
theorem exists_fields (hmagic : bytes.take 4 = magic) (hlength : headerLength ≤ bytes.length) :
    ∃ version flags size digest payload : List UInt8,
      version.length = 2 ∧ flags.length = 2 ∧ size.length = 8 ∧ digest.length = 32 ∧
        bytes = magic ++ (version ++ (flags ++ (size ++ (digest ++ payload)))) := by
  rw [headerLength] at hlength
  refine ⟨(bytes.drop 4).take 2, (bytes.drop 6).take 2, (bytes.drop 8).take 8,
    (bytes.drop 16).take 32, bytes.drop 48, ?_, ?_, ?_, ?_, ?_⟩
  · rw [List.length_take, List.length_drop]
    omega
  · rw [List.length_take, List.length_drop]
    omega
  · rw [List.length_take, List.length_drop]
    omega
  · rw [List.length_take, List.length_drop]
    omega
  · have hcut (i n : Nat) : (bytes.drop i).take n ++ bytes.drop (i + n) = bytes.drop i := by
      rw [← List.drop_drop, List.take_append_drop]
    rw [hcut 16 32, hcut 8 8, hcut 6 2, hcut 4 2, ← hmagic, List.take_append_drop]

/-- A file that is accepted is the header of a payload and the payload behind it. -/
theorem exists_headerWith (h : decodeWith hash bytes = .ok m) :
    ∃ flags payload, flags.length = 2 ∧ payload.length < 2 ^ 64 ∧
      bytes = headerWith hash flags payload ++ payload ∧
      (Json.read? payload).bind ofJson? = some m := by
  obtain ⟨hmagic, hheader⟩ := of_ite_error_eq_ok h
  obtain ⟨hlength, -⟩ := of_ite_error_eq_ok hheader
  obtain ⟨version, flags, size, digest, payload, hversion, hflags, hsize, hdigest, rfl⟩ :=
    exists_fields (Decidable.not_not.mp hmagic) (Nat.le_of_not_lt hlength)
  rw [decodeWith_fields hash payload hversion hflags hsize hdigest] at h
  obtain ⟨hone, h⟩ := of_ite_error_eq_ok h
  obtain ⟨hpayload, h⟩ := of_ite_error_eq_ok h
  obtain ⟨hhash, h⟩ := of_ite_error_eq_ok h
  rw [Decidable.not_not] at hone hpayload hhash
  refine ⟨flags, payload, hflags, ?_, ?_, ?_⟩
  · have hlt := ofLittleEndian_lt size
    rw [hsize] at hlt
    exact hpayload ▸ hlt
  · have hversionBytes := littleEndian_ofLittleEndian version
    have hsizeBytes := littleEndian_ofLittleEndian size
    rw [hversion, hone] at hversionBytes
    rw [hsize, ← hpayload] at hsizeBytes
    simp only [headerWith, List.append_assoc, hversionBytes, hsizeBytes, hhash]
  · cases hfound : (Json.read? payload).bind ofJson? with
    | none =>
        rw [hfound] at h
        cases h
    | some found =>
        rw [hfound] at h
        cases h
        rfl

/-- The files that are accepted, and the module that is read of each. -/
theorem decodeWith_eq_ok_iff :
    decodeWith hash bytes = .ok m ↔
      ∃ flags payload, flags.length = 2 ∧ payload.length < 2 ^ 64 ∧
        bytes = headerWith hash flags payload ++ payload ∧
        (Json.read? payload).bind ofJson? = some m := by
  refine ⟨exists_headerWith, ?_⟩
  rintro ⟨flags, payload, hflags, hfits, rfl, hread⟩
  rw [decodeWith_headerWith hflags hfits, if_neg (fun h => h rfl), if_neg (fun h => h rfl), hread]
  rfl

/-! ## Parts of a file -/

theorem decodeWith_of_length_lt_magic {part : List UInt8} (h : part.length < 4) :
    decodeWith hash part = .error .badMagic := by
  rw [decodeWith, if_pos]
  intro hmagic
  have hlength := congrArg List.length hmagic
  rw [List.take_of_length_le (by omega)] at hlength
  have hfour : magic.length = 4 := rfl
  omega

theorem decodeWith_of_length_lt_header {part : List UInt8} (hmagic : part.take 4 = magic)
    (h : part.length < headerLength) :
    decodeWith hash part = .error (.truncated headerLength part.length) := by
  rw [decodeWith, if_neg (fun hne => hne hmagic), if_pos h]

/-- A part of a file that is shorter than the header is told by its length. -/
theorem decodeWith_of_part {part : List UInt8} (hpart : part <+: bytes)
    (hmagic : bytes.take 4 = magic) (h : part.length < headerLength) :
    decodeWith hash part =
      .error (if part.length < 4 then .badMagic else .truncated headerLength part.length) := by
  by_cases hshort : part.length < 4
  · rw [decodeWith_of_length_lt_magic hshort, if_pos hshort]
  · have hstart : part.take 4 = magic := by
      rw [List.prefix_iff_eq_take.mp hpart, List.take_take, Nat.min_eq_left (by omega), hmagic]
    rw [decodeWith_of_length_lt_header hstart h, if_neg hshort]

theorem length_ne_of_comparable {other : List UInt8} (hne : other ≠ bytes)
    (h : other <+: bytes ∨ bytes <+: other) : other.length ≠ bytes.length := by
  intro hlength
  rcases h with hpart | hmore
  · exact hne (hpart.eq_of_length hlength)
  · exact hne (hmore.eq_of_length hlength.symm).symm

/-- What is read of a part of an accepted file, or of more than the file. -/
theorem decodeWith_of_comparable {other : List UInt8} (hflags : flags.length = 2)
    (hfits : payload.length < 2 ^ 64) (hbytes : bytes = headerWith hash flags payload ++ payload)
    (hne : other ≠ bytes) (hcomparable : other <+: bytes ∨ bytes <+: other) :
    decodeWith hash other =
      .error (if other.length < 4 then .badMagic
        else if other.length < headerLength then .truncated headerLength other.length
        else .truncated (min bytes.length Number.maxUnsigned) other.length) := by
  have hheader := length_headerWith hash payload hflags
  have hlength : bytes.length = headerLength + payload.length := by
    rw [hbytes, List.length_append, hheader]
  have hother := length_ne_of_comparable hne hcomparable
  by_cases hshort : other.length < headerLength
  · -- Only a part of the file can be that short.
    have hpart : other <+: bytes := by
      rcases hcomparable with hpart | hmore
      · exact hpart
      · have hle := hmore.length_le
        omega
    have hmagic : bytes.take 4 = magic := by
      rw [hbytes]
      rfl
    rw [decodeWith_of_part hpart hmagic hshort, if_pos hshort]
  · -- The header is whole and asks for the payload that was behind it.
    have hfour : ¬ other.length < 4 := by
      rw [headerLength] at hshort
      omega
    have hfront : headerWith hash flags payload <+: bytes := hbytes ▸ List.prefix_append _ payload
    obtain ⟨rest, rfl⟩ : headerWith hash flags payload <+: other := by
      rcases hcomparable with hpart | hmore
      · exact List.prefix_of_prefix_length_le hfront hpart (by omega)
      · exact hfront.trans hmore
    rw [if_neg hfour, if_neg hshort, hlength, decodeWith_headerWith hflags hfits]
    rw [List.length_append, hheader] at hother ⊢
    rw [if_pos (by omega)]

end Form

/-- A module file tells where it ends. The accepted files are, whatever the digest is, the
magic, the version, any two bytes of flags, the length of the payload, its digest and the
payload. A part of an accepted file is refused, and so is more than the file, as no module
if the magic is not whole and as truncated otherwise. -/
theorem decodeWith_delimits (hash : List UInt8 → Digest.Hash) (bytes : List UInt8) (m : Module) :
    (decodeWith hash bytes = .ok m ↔
      ∃ flags payload, flags.length = 2 ∧ payload.length < 2 ^ 64 ∧
        bytes = magic ++ (littleEndian 2 1 ++ (flags ++ (littleEndian 8 payload.length
          ++ ((hash payload).toList ++ payload)))) ∧
        (Json.read? payload).bind ofJson? = some m) ∧
    (decodeWith hash bytes = .ok m →
      ∀ other, other ≠ bytes → other <+: bytes ∨ bytes <+: other →
        decodeWith hash other =
          .error (if other.length < 4 then .badMagic
            else if other.length < headerLength then .truncated headerLength other.length
            else .truncated (min bytes.length Number.maxUnsigned) other.length)) := by
  constructor
  · rw [decodeWith_eq_ok_iff]
    simp only [headerWith, formatVersion, List.append_assoc]
  · intro h other hne hcomparable
    obtain ⟨flags, payload, hflags, hfits, hbytes, -⟩ := exists_headerWith h
    exact decodeWith_of_comparable hflags hfits hbytes hne hcomparable

/-- The file of a module without types, cut within its header and with a byte behind it. -/
theorem decodeWith_delimits_emptyModule :
    let m : Module := { name := "m", types := [] }
    decode m.encode = .ok m ∧
      decode (m.encode.take 20) = .error (.truncated 48 20) ∧
      decode (m.encode ++ [0]) = .error (.truncated 71 72) := by
  intro m
  have hpayload : (Text.utf8 m.payload).length = 23 := by decide +kernel
  have hnesting : m.toJson.nesting ≤ Json.nestingLimit := by decide +kernel
  have hok : decode m.encode = .ok m := by
    rw [decode, encode, decodeWith_encodeWith, hpayload, if_pos (by decide), if_pos hnesting]
  have hlength : m.encode.length = 71 := by
    simp only [encode, encodeWith, frame, header, List.length_append, length_littleEndian,
      Vector.length_toList, hpayload]
    rfl
  have hrefused := (decodeWith_delimits Digest.blake3 m.encode m).2 hok
  have hcut : (m.encode.take 20).length = 20 := by
    rw [List.length_take, hlength]
    rfl
  have hmore : (m.encode ++ [0]).length = 72 := by
    rw [List.length_append, hlength]
    rfl
  refine ⟨hok, ?_, ?_⟩
  · have hne : m.encode.take 20 ≠ m.encode := ne_of_apply_ne List.length (by omega)
    rw [decode, hrefused _ hne (.inl (List.take_prefix 20 _)), hcut]
    rfl
  · have hne : m.encode ++ [0] ≠ m.encode := ne_of_apply_ne List.length (by omega)
    rw [decode, hrefused _ hne (.inr (List.prefix_append _ _)), hmore, hlength]
    rfl

end Module

end ViewPress
