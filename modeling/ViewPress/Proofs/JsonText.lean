import ViewPress.Json.Printer
import ViewPress.Json.Reader

/-!
# Compact text reads back

The compact text of a JSON value, as bytes, is read back to the value, whatever
follows it. Numbers are left out: a double is written with the fewest digits, and
reading those is allowed to be off by a rounding. What is left is `Plain`, and
modules are plain.

Strings carry the argument. The writer escapes characters and the reader looks at
bytes, so each character is followed through three steps: the bytes of its escaped
form, the pieces that the reader makes of them, and the bytes that the pieces are
assembled to. The last are the character's own, and a text is known by its bytes.

The budget of the reader is spent once for each level and each item. A byte at least
is used up every time, so the bytes of a value pay for reading it, and one more for
the items of an array or the members of an object.
-/

namespace ViewPress.Text

/-! ## Bytes of text -/

theorem utf8_eq (s : String) : utf8 s = s.toList.flatMap String.utf8EncodeChar := by
  rw [utf8, String.toUTF8_eq_toByteArray, ← String.utf8Encode_toList, List.utf8Encode,
    List.data_toByteArray]

theorem utf8_append (s t : String) : utf8 (s ++ t) = utf8 s ++ utf8 t := by
  rw [utf8_eq, utf8_eq, utf8_eq, String.toList_append, List.flatMap_append]

/-- A text is known by its bytes. -/
theorem ofUtf8?_utf8 (s : String) : ofUtf8? (utf8 s) = some s := by
  have hbytes : (⟨(utf8 s).toArray⟩ : ByteArray) = s.toByteArray := by
    rw [utf8, String.toUTF8_eq_toByteArray]
  have hvalid : s.toByteArray.IsValidUTF8 := s.isValidUTF8
  rw [ofUtf8?, hbytes, String.fromUTF8?, dif_pos hvalid]
  rfl

/-- A character of ASCII is one byte. -/
theorem utf8EncodeChar_of_lt {c : Char} (h : c.toNat < 0x80) :
    String.utf8EncodeChar c = [c.toNat.toUInt8] := by
  have hle : c.val.toNat ≤ 0x7f := Nat.le_of_lt_succ h
  rw [String.utf8EncodeChar, if_pos hle]
  rfl

/-- No byte of another character is one of ASCII. -/
theorem le_of_mem_utf8EncodeChar {c : Char} (h : 0x80 ≤ c.toNat) {b : UInt8}
    (hb : b ∈ String.utf8EncodeChar c) : 0x80 ≤ b.toNat := by
  have hgt : ¬ c.val.toNat ≤ 0x7f := Nat.not_le_of_lt h
  have hmod {n : Nat} (hn : 0x80 ≤ n) (hlt : n < 256) : 0x80 ≤ (UInt8.ofNat n).toNat := by
    rw [UInt8.toNat_ofNat_of_lt' hlt]
    exact hn
  rw [String.utf8EncodeChar, if_neg hgt] at hb
  split at hb
  · simp only [List.mem_cons, List.not_mem_nil, or_false] at hb
    rcases hb with rfl | rfl <;> exact hmod (by omega) (by omega)
  · split at hb
    · simp only [List.mem_cons, List.not_mem_nil, or_false] at hb
      rcases hb with rfl | rfl | rfl <;> exact hmod (by omega) (by omega)
    · simp only [List.mem_cons, List.not_mem_nil, or_false] at hb
      rcases hb with rfl | rfl | rfl | rfl <;> exact hmod (by omega) (by omega)

end ViewPress.Text

namespace ViewPress.Json

/-! ## Strings -/

/-- What the reader makes of a character: the character's bytes, or one unit for a control
character that has no short escape. -/
def charPieces (c : Char) : List Piece :=
  if c.toNat < 0x20 ∧ c.toNat ∉ [0x08, 0x09, 0x0A, 0x0C, 0x0D] then [.unit c.toNat]
  else (String.utf8EncodeChar c).map .byte

/-- Puts pieces in front of those that were read. -/
def addPieces (ps : List Piece) (found : List Piece × List UInt8) : List Piece × List UInt8 :=
  (ps ++ found.1, found.2)

theorem readPieces_byte {b : UInt8} (hcontrol : ¬ b < 0x20) (hquote : b ≠ 0x22)
    (hescape : b ≠ 0x5C) (rest : List UInt8) :
    readPieces (b :: rest) = (readPieces rest).map (addPieces [.byte b]) := by
  rw [readPieces.eq_def]
  split
  · next h => cases h
  · next h =>
      cases h
      exact absurd rfl hquote
  · next h =>
      cases h
      exact absurd rfl hescape
  · next h =>
      cases h
      exact absurd rfl hescape
  · next h =>
      cases h
      have hplain : (decide (b < 0x20) || b == 0x5C) = false := by simp [hcontrol, hescape]
      rw [hplain, if_neg Bool.false_ne_true]
      cases readPieces rest <;> rfl

theorem readPieces_bytes {bs : List UInt8}
    (h : ∀ b ∈ bs, ¬ b < 0x20 ∧ b ≠ 0x22 ∧ b ≠ 0x5C) (rest : List UInt8) :
    readPieces (bs ++ rest) = (readPieces rest).map (addPieces (bs.map .byte)) := by
  induction bs with
  | nil => cases hrest : readPieces rest <;> simp [addPieces, hrest]
  | cons b bs ih =>
      obtain ⟨⟨hcontrol, hquote, hescape⟩, hbs⟩ := List.forall_mem_cons.mp h
      rw [List.cons_append, readPieces_byte hcontrol hquote hescape, ih hbs, Option.map_map]
      rfl

theorem readPieces_escape {e b : UInt8} (hunit : e ≠ 0x75) (h : escape? e = some b)
    (rest : List UInt8) :
    readPieces (0x5C :: e :: rest) = (readPieces rest).map (addPieces [.byte b]) := by
  rw [readPieces.eq_def]
  split
  · next h => cases h
  · next h => cases h
  · next h =>
      cases h
      exact absurd rfl hunit
  · next h' =>
      cases h'
      rw [h]
      cases readPieces rest <;> rfl
  · next hne h' =>
      cases h'
      exact (hne _ _ rfl rfl).elim

theorem readPieces_unit {a b c d : UInt8} {n : Nat} (h : hexUnit? a b c d = some n)
    (rest : List UInt8) :
    readPieces (0x5C :: 0x75 :: a :: b :: c :: d :: rest)
      = (readPieces rest).map (addPieces [.unit n]) := by
  rw [readPieces, h]
  cases readPieces rest <;> rfl

/-- The two digits of a control character spell it. -/
theorem hexUnit?_hexOfByte {n : Nat} (h : n < 0x20) :
    hexUnit? 0x30 0x30 (Nat.digitChar (n / 16)).toNat.toUInt8
      (Nat.digitChar (n % 16)).toNat.toUInt8 = some n := by
  revert n
  decide

theorem utf8_hexOfByte {n : Nat} (h : n < 0x20) :
    (['\\', 'u', '0', '0'] ++ Text.hexOfByte n.toUInt8).flatMap String.utf8EncodeChar
      = [0x5C, 0x75, 0x30, 0x30, (Nat.digitChar (n / 16)).toNat.toUInt8,
        (Nat.digitChar (n % 16)).toNat.toUInt8] := by
  revert n
  decide

/-- A character that is not escaped gives its own bytes. -/
theorem readPieces_plain {c : Char} (hcontrol : ¬ c.toNat < 0x20) (hquote : c ≠ '"')
    (hescape : c ≠ '\\') (rest : List UInt8) :
    readPieces (String.utf8EncodeChar c ++ rest)
      = (readPieces rest).map (addPieces ((String.utf8EncodeChar c).map .byte)) := by
  refine readPieces_bytes (fun b hb => ?_) rest
  have hne {d : Char} (hd : c ≠ d) : c.toNat ≠ d.toNat := fun h => hd (Char.toNat_inj.mp h)
  rw [ne_eq, ne_eq, ← UInt8.toNat_inj, ← UInt8.toNat_inj, UInt8.lt_iff_toNat_lt]
  by_cases hascii : c.toNat < 0x80
  · rw [Text.utf8EncodeChar_of_lt hascii] at hb
    have hbyte : b.toNat = c.toNat := by
      rw [List.mem_singleton.mp hb]
      exact Nat.mod_eq_of_lt (by omega)
    rw [hbyte]
    exact ⟨hcontrol, hne hquote, hne hescape⟩
  · have hle := Text.le_of_mem_utf8EncodeChar (Nat.le_of_not_lt hascii) hb
    have h20 : (0x20 : UInt8).toNat = 0x20 := rfl
    have h22 : (0x22 : UInt8).toNat = 0x22 := rfl
    have h5C : (0x5C : UInt8).toNat = 0x5C := rfl
    omega

theorem readPieces_escapeChar (c : Char) (rest : List UInt8) :
    readPieces ((escapeChar c).flatMap String.utf8EncodeChar ++ rest)
      = (readPieces rest).map (addPieces (charPieces c)) := by
  by_cases hquote : c = '"'
  · subst hquote
    exact readPieces_escape (e := 0x22) (by decide) rfl rest
  by_cases hescape : c = '\\'
  · subst hescape
    exact readPieces_escape (e := 0x5C) (by decide) rfl rest
  by_cases hcontrol : c.toNat < 0x20
  · by_cases hshort : c.toNat ∈ [0x08, 0x09, 0x0A, 0x0C, 0x0D]
    · have hchar : c = Char.ofNat c.toNat := c.ofNat_toNat.symm
      simp only [List.mem_cons, List.not_mem_nil, or_false] at hshort
      rcases hshort with h | h | h | h | h <;> rw [h] at hchar <;> subst hchar <;>
        exact readPieces_escape (by decide) rfl rest
    · have hpieces : charPieces c = [.unit c.toNat] := if_pos ⟨hcontrol, hshort⟩
      have hescaped : escapeChar c = ['\\', 'u', '0', '0'] ++ Text.hexOfByte c.toNat.toUInt8 := by
        have hne {d : Char} (hd : d.toNat ∈ [0x08, 0x09, 0x0A, 0x0C, 0x0D]) : c ≠ d :=
          fun h => hshort (h ▸ hd)
        simp only [List.mem_cons, List.not_mem_nil, or_false, not_or] at hshort
        rw [escapeChar, if_neg hquote, if_neg hescape, if_neg (hne (by decide)),
          if_neg (hne (by decide)), if_neg (hne (by decide)), if_neg hshort.1,
          if_neg hshort.2.2.2.1, if_pos hcontrol]
      rw [hescaped, utf8_hexOfByte hcontrol, hpieces]
      exact readPieces_unit (hexUnit?_hexOfByte hcontrol) rest
  · have hne {d : Char} (hd : d.toNat < 0x20) : c ≠ d := fun h => hcontrol (h ▸ hd)
    have hescaped : escapeChar c = [c] := by
      rw [escapeChar, if_neg hquote, if_neg hescape, if_neg (hne (by decide)),
        if_neg (hne (by decide)), if_neg (hne (by decide)), if_neg (by omega),
        if_neg (by omega), if_neg hcontrol]
    have hpieces : charPieces c = (String.utf8EncodeChar c).map .byte :=
      if_neg fun h => hcontrol h.1
    rw [hescaped, List.flatMap_singleton, hpieces]
    exact readPieces_plain hcontrol hquote hescape rest

theorem readPieces_quoted (cs : List Char) (rest : List UInt8) :
    readPieces ((cs.flatMap escapeChar).flatMap String.utf8EncodeChar ++ 0x22 :: rest)
      = some (cs.flatMap charPieces, rest) := by
  induction cs with
  | nil => rfl
  | cons c cs ih =>
      rw [List.flatMap_cons, List.flatMap_append, List.append_assoc, readPieces_escapeChar, ih,
        List.flatMap_cons]
      rfl

/-- A unit that is no surrogate stands for one character. -/
theorem assemble?_unit {n : Nat} (h : n < 0xD800) (ps : List Piece) :
    assemble? (.unit n :: ps)
      = (assemble? ps).map (String.utf8EncodeChar (Char.ofNat n) ++ ·) := by
  have hhigh : isHighSurrogate n = false := by simp [isHighSurrogate, Nat.not_le_of_lt h]
  have hlow : isLowSurrogate n = false := by
    simp [isLowSurrogate, Nat.not_le_of_lt (Nat.lt_trans h (by decide : 0xD800 < 0xDC00))]
  cases ps with
  | nil => simp [assemble?, hhigh, hlow]
  | cons p ps =>
      cases p with
      | byte b => simp [assemble?, hhigh, hlow]
      | unit lo => simp [assemble?, hhigh, hlow]

theorem assemble?_bytes (bs : List UInt8) (ps : List Piece) :
    assemble? (bs.map .byte ++ ps) = (assemble? ps).map (bs ++ ·) := by
  induction bs with
  | nil => cases h : assemble? ps <;> simp [h]
  | cons b bs ih =>
      rw [List.map_cons, List.cons_append, assemble?, ih, Option.map_map]
      rfl

theorem assemble?_charPieces (c : Char) (ps : List Piece) :
    assemble? (charPieces c ++ ps) = (assemble? ps).map (String.utf8EncodeChar c ++ ·) := by
  rw [charPieces]
  split
  · next h =>
      rw [List.singleton_append, assemble?_unit (by omega), Char.ofNat_toNat]
  · exact assemble?_bytes _ ps

/-- The pieces of a text are assembled to the text. -/
theorem pieceText?_charPieces (s : String) :
    pieceText? (s.toList.flatMap charPieces) = some s := by
  have hassemble (cs : List Char) :
      assemble? (cs.flatMap charPieces) = some (cs.flatMap String.utf8EncodeChar) := by
    induction cs with
    | nil => rfl
    | cons c cs ih =>
        rw [List.flatMap_cons, assemble?_charPieces, ih, List.flatMap_cons]
        rfl
  rw [pieceText?, hassemble, ← Text.utf8_eq]
  exact Text.ofUtf8?_utf8 s

/-- The bytes of a quoted text between its quotes. -/
theorem utf8_quote (s : String) :
    Text.utf8 (quote s)
      = 0x22 :: ((s.toList.flatMap escapeChar).flatMap String.utf8EncodeChar ++ [0x22]) := by
  rw [Text.utf8_eq, quote, String.toList_ofList, List.flatMap_append, List.flatMap_cons]
  rfl

/-! ## Values -/

mutual

/-- No number stands in the value, and nothing garbled. -/
def Plain : Json → Prop
  | .num _ => False
  | .garbled => False
  | .arr items => PlainItems items
  | .obj members => PlainMembers members
  | _ => True

def PlainItems : List Json → Prop
  | [] => True
  | j :: js => j.Plain ∧ PlainItems js

def PlainMembers : List (String × Json) → Prop
  | [] => True
  | (_, j) :: rest => j.Plain ∧ PlainMembers rest

end

theorem skipSpace_cons {b : UInt8} (h : isSpace b = false) (rest : List UInt8) :
    skipSpace (b :: rest) = b :: rest := by
  rw [skipSpace, List.dropWhile_cons_of_neg (by rw [h]; exact Bool.false_ne_true)]

theorem readWord_append (word : String) (rest : List UInt8) :
    readWord word (Text.utf8 word ++ rest) = some rest := by
  have hpre (bs : List UInt8) : bs.isPrefixOf? (bs ++ rest) = some rest := by
    induction bs with
    | nil => rfl
    | cons b bs ih => exact (if_pos (beq_self_eq_true b)).trans ih
  exact hpre _

theorem utf8_compact_arr (items : List Json) :
    Text.utf8 (compact (.arr items)) = 0x5B :: (Text.utf8 (compactItems items) ++ [0x5D]) := by
  rw [compact, Text.utf8_append, Text.utf8_append]
  rfl

theorem utf8_compact_obj (members : List (String × Json)) :
    Text.utf8 (compact (.obj members))
      = 0x7B :: (Text.utf8 (compactMembers members) ++ [0x7D]) := by
  rw [compact, Text.utf8_append, Text.utf8_append]
  rfl

theorem utf8_compactItems (j k : Json) (js : List Json) :
    Text.utf8 (compactItems (j :: k :: js))
      = Text.utf8 j.compact ++ 0x2C :: Text.utf8 (compactItems (k :: js)) := by
  rw [compactItems, Text.utf8_append, Text.utf8_append, List.append_assoc]
  · rfl
  · exact List.cons_ne_nil k js

theorem utf8_compactMember (key : String) (j : Json) :
    Text.utf8 (compactMembers [(key, j)])
      = Text.utf8 (quote key) ++ 0x3A :: Text.utf8 j.compact := by
  rw [compactMembers, Text.utf8_append, Text.utf8_append, List.append_assoc]
  rfl

theorem utf8_compactMembers (key : String) (j : Json) (m : String × Json)
    (rest : List (String × Json)) :
    Text.utf8 (compactMembers ((key, j) :: m :: rest))
      = Text.utf8 (quote key) ++ 0x3A :: (Text.utf8 j.compact
        ++ 0x2C :: Text.utf8 (compactMembers (m :: rest))) := by
  rw [compactMembers, Text.utf8_append, Text.utf8_append, Text.utf8_append, Text.utf8_append,
    List.append_assoc, List.append_assoc, List.append_assoc]
  · rfl
  · exact List.cons_ne_nil m rest

/-- A value starts with a byte that is no blank and does not close an array. -/
theorem exists_utf8_compact {j : Json} (h : j.Plain) :
    ∃ b bs, Text.utf8 j.compact = b :: bs ∧ isSpace b = false ∧ b ≠ 0x5D := by
  cases j with
  | null => exact ⟨_, _, rfl, by decide, by decide⟩
  | bool b => cases b <;> exact ⟨_, _, rfl, by decide, by decide⟩
  | num n => simp only [Plain] at h
  | str s => exact ⟨_, _, (by rw [compact]; exact utf8_quote s), by decide, by decide⟩
  | arr items => exact ⟨_, _, utf8_compact_arr items, by decide, by decide⟩
  | obj members => exact ⟨_, _, utf8_compact_obj members, by decide, by decide⟩
  | garbled => simp only [Plain] at h

theorem exists_utf8_compactItems {items : List Json} (hne : items ≠ [])
    (h : PlainItems items) :
    ∃ b bs, Text.utf8 (compactItems items) = b :: bs ∧ isSpace b = false ∧ b ≠ 0x5D := by
  cases items with
  | nil => exact absurd rfl hne
  | cons j js =>
      rw [PlainItems] at h
      obtain ⟨b, bs, hb, hspace, hclose⟩ := exists_utf8_compact h.1
      cases js with
      | nil => exact ⟨b, bs, by rw [compactItems, hb], hspace, hclose⟩
      | cons k ks =>
          have hall := utf8_compactItems j k ks
          rw [hb, List.cons_append] at hall
          exact ⟨b, _, hall, hspace, hclose⟩

theorem exists_utf8_compactMembers {members : List (String × Json)} (hne : members ≠ []) :
    ∃ bs, Text.utf8 (compactMembers members) = 0x22 :: bs := by
  match members, hne with
  | [(key, j)], _ =>
      have hall := utf8_compactMember key j
      rw [utf8_quote, List.cons_append] at hall
      exact ⟨_, hall⟩
  | (key, j) :: m :: rest, _ =>
      have hall := utf8_compactMembers key j m rest
      rw [utf8_quote, List.cons_append] at hall
      exact ⟨_, hall⟩

theorem readValue_str (s : String) (n : Nat) (rest : List UInt8) :
    readValue (n + 1) (Text.utf8 (quote s) ++ rest) = some (.str s, rest) := by
  rw [utf8_quote, List.cons_append, List.append_assoc, List.singleton_append, readValue,
    skipSpace_cons (by decide)]
  simp only [beq_self_eq_true, if_true]
  rw [readPieces_quoted]
  simp only [Option.bind_eq_bind, Option.bind_some, pieceText?_charPieces]
  rfl

theorem ofMembers_some (members : List (String × Json)) :
    ofMembers (members.map fun m => (some m.1, m.2)) = .obj members := by
  have hmap (ms : List (String × Json)) :
      (ms.map fun m => (some m.1, m.2)).mapM (fun m => m.1.map fun key => (key, m.2))
        = some ms := by
    induction ms with
    | nil => rfl
    | cons m ms ih =>
        rw [List.map_cons, List.mapM_cons, ih]
        rfl
  have hmembers := hmap members
  rw [ofMembers]
  split
  · next found hfound =>
      rw [Option.some.inj (hfound.symm.trans hmembers)]
  · next hnone => exact absurd (hnone.symm.trans hmembers) (by simp)

theorem readValue_null (n : Nat) (rest : List UInt8) :
    readValue (n + 1) (Text.utf8 "null" ++ rest) = some (.null, rest) := by
  have hbytes : Text.utf8 "null" ++ rest = 0x6E :: 0x75 :: 0x6C :: 0x6C :: rest := rfl
  rw [hbytes, readValue, skipSpace_cons (by decide)]
  show (readWord "null" (Text.utf8 "null" ++ rest)).map (Json.null, ·) = _
  rw [readWord_append]
  rfl

theorem readValue_bool (b : Bool) (n : Nat) (rest : List UInt8) :
    readValue (n + 1) (Text.utf8 (if b then "true" else "false") ++ rest)
      = some (.bool b, rest) := by
  cases b with
  | true =>
      have hbytes : Text.utf8 "true" ++ rest = 0x74 :: 0x72 :: 0x75 :: 0x65 :: rest := rfl
      rw [if_pos rfl, hbytes, readValue, skipSpace_cons (by decide)]
      show (readWord "true" (Text.utf8 "true" ++ rest)).map (Json.bool true, ·) = _
      rw [readWord_append]
      rfl
  | false =>
      have hbytes : Text.utf8 "false" ++ rest = 0x66 :: 0x61 :: 0x6C :: 0x73 :: 0x65 :: rest := rfl
      rw [if_neg Bool.false_ne_true, hbytes, readValue, skipSpace_cons (by decide)]
      show (readWord "false" (Text.utf8 "false" ++ rest)).map (Json.bool false, ·) = _
      rw [readWord_append]
      rfl

theorem readValue_arr_nil (n : Nat) (rest : List UInt8) :
    readValue (n + 1) (0x5B :: 0x5D :: rest) = some (.arr [], rest) := by
  rw [readValue, skipSpace_cons (by decide)]
  rfl

theorem readValue_arr {first : UInt8} {bs rest : List UInt8} {n : Nat} {items : List Json}
    (hspace : isSpace first = false) (hne : first ≠ 0x5D)
    (h : readItems n (first :: bs) = some (items, rest)) :
    readValue (n + 1) (0x5B :: first :: bs) = some (.arr items, rest) := by
  rw [readValue, skipSpace_cons (by decide)]
  dsimp only
  rw [if_neg (by decide), if_pos (by decide), skipSpace_cons hspace]
  split
  · next heq =>
      cases heq
      exact absurd rfl hne
  · rw [h]
    rfl

theorem readValue_obj_nil (n : Nat) (rest : List UInt8) :
    readValue (n + 1) (0x7B :: 0x7D :: rest) = some (.obj [], rest) := by
  rw [readValue, skipSpace_cons (by decide)]
  rfl

theorem readValue_obj {bs rest : List UInt8} {n : Nat} {members : List (String × Json)}
    (h : readMembers n (0x22 :: bs) = some (members.map fun m => (some m.1, m.2), rest)) :
    readValue (n + 1) (0x7B :: 0x22 :: bs) = some (.obj members, rest) := by
  rw [readValue, skipSpace_cons (by decide)]
  show (readMembers n (0x22 :: bs) >>= fun p => some (ofMembers p.1, p.2)) = _
  rw [h, ← ofMembers_some members]
  rfl

theorem readItems_last {n : Nat} {bs rest : List UInt8} {item : Json}
    (h : readValue n bs = some (item, 0x5D :: rest)) :
    readItems (n + 1) bs = some ([item], rest) := by
  rw [readItems, h]
  rfl

theorem readItems_more {n : Nat} {bs bs' rest : List UInt8} {item : Json} {items : List Json}
    (h : readValue n bs = some (item, 0x2C :: bs')) (hmore : readItems n bs' = some (items, rest)) :
    readItems (n + 1) bs = some (item :: items, rest) := by
  rw [readItems, h]
  show (readItems n bs' >>= fun p => some (item :: p.1, p.2)) = _
  rw [hmore]
  rfl

theorem readMembers_key (n : Nat) (key : String) (bs : List UInt8) :
    readMembers (n + 1) (Text.utf8 (quote key) ++ 0x3A :: bs) = (do
      let (value, rest) ← readValue n bs
      match skipSpace rest with
      | 0x7D :: rest => return ([(some key, value)], rest)
      | 0x2C :: rest => do
          let (members, rest) ← readMembers n rest
          return ((some key, value) :: members, rest)
      | _ => none) := by
  rw [utf8_quote, List.cons_append, List.append_assoc, List.singleton_append, readMembers,
    skipSpace_cons (by decide)]
  simp only [readPieces_quoted, Option.bind_eq_bind, Option.bind_some, pieceText?_charPieces]
  rfl

theorem readMembers_last {n : Nat} {bs rest : List UInt8} {value : Json} (key : String)
    (h : readValue n bs = some (value, 0x7D :: rest)) :
    readMembers (n + 1) (Text.utf8 (quote key) ++ 0x3A :: bs)
      = some ([(some key, value)], rest) := by
  rw [readMembers_key, h]
  rfl

theorem readMembers_more {n : Nat} {bs bs' rest : List UInt8} {value : Json}
    {members : List (Option String × Json)} (key : String)
    (h : readValue n bs = some (value, 0x2C :: bs'))
    (hmore : readMembers n bs' = some (members, rest)) :
    readMembers (n + 1) (Text.utf8 (quote key) ++ 0x3A :: bs)
      = some ((some key, value) :: members, rest) := by
  rw [readMembers_key, h]
  show (do
    let (members, rest) ← readMembers n bs'
    return ((some key, value) :: members, rest)) = _
  rw [hmore]
  rfl

mutual

/-- The bytes of a value pay for reading it. -/
theorem readValue_compact (j : Json) (hj : j.Plain) (n : Nat)
    (hn : (Text.utf8 j.compact).length ≤ n) (rest : List UInt8) :
    readValue n (Text.utf8 j.compact ++ rest) = some (j, rest) := by
  obtain ⟨n, rfl⟩ : ∃ k, n = k + 1 := by
    obtain ⟨first, bs, hfirst, -⟩ := exists_utf8_compact hj
    rw [hfirst, List.length_cons] at hn
    exact ⟨n - 1, by omega⟩
  cases j with
  | null =>
      rw [compact]
      exact readValue_null n rest
  | bool b =>
      rw [compact]
      exact readValue_bool b n rest
  | num m => simp only [Plain] at hj
  | str s =>
      rw [compact]
      exact readValue_str s n rest
  | arr items =>
      rw [Plain] at hj
      rw [utf8_compact_arr, List.length_cons, List.length_append, List.length_singleton] at hn
      rw [utf8_compact_arr, List.cons_append, List.append_assoc, List.singleton_append]
      cases items with
      | nil => exact readValue_arr_nil n rest
      | cons j js =>
          have hitems := readItems_compact (j :: js) (List.cons_ne_nil j js) hj n (by omega) rest
          obtain ⟨b, bs, hb, hspace, hclose⟩ :=
            exists_utf8_compactItems (List.cons_ne_nil j js) hj
          rw [hb, List.cons_append] at hitems ⊢
          exact readValue_arr hspace hclose hitems
  | obj members =>
      rw [Plain] at hj
      rw [utf8_compact_obj, List.length_cons, List.length_append, List.length_singleton] at hn
      rw [utf8_compact_obj, List.cons_append, List.append_assoc, List.singleton_append]
      cases members with
      | nil => exact readValue_obj_nil n rest
      | cons m ms =>
          have hmembers :=
            readMembers_compact (m :: ms) (List.cons_ne_nil m ms) hj n (by omega) rest
          obtain ⟨bs, hbs⟩ := exists_utf8_compactMembers (List.cons_ne_nil m ms)
          rw [hbs, List.cons_append] at hmembers ⊢
          exact readValue_obj hmembers
  | garbled => simp only [Plain] at hj

/-- Items need one round more than their bytes, for the closing bracket. -/
theorem readItems_compact (items : List Json) (hne : items ≠ []) (hitems : PlainItems items)
    (n : Nat) (hn : (Text.utf8 (compactItems items)).length + 1 ≤ n) (rest : List UInt8) :
    readItems n (Text.utf8 (compactItems items) ++ 0x5D :: rest) = some (items, rest) := by
  obtain ⟨n, rfl⟩ : ∃ k, n = k + 1 := ⟨n - 1, by omega⟩
  cases items with
  | nil => exact absurd rfl hne
  | cons j js =>
      rw [PlainItems] at hitems
      cases js with
      | nil =>
          rw [compactItems] at hn ⊢
          exact readItems_last (readValue_compact j hitems.1 n (by omega) (0x5D :: rest))
      | cons k ks =>
          rw [utf8_compactItems, List.length_append, List.length_cons] at hn
          rw [utf8_compactItems, List.append_assoc, List.cons_append]
          exact readItems_more (readValue_compact j hitems.1 n (by omega) _)
            (readItems_compact (k :: ks) (List.cons_ne_nil k ks) hitems.2 n (by omega) rest)

/-- So do members. -/
theorem readMembers_compact (members : List (String × Json)) (hne : members ≠ [])
    (hmembers : PlainMembers members) (n : Nat)
    (hn : (Text.utf8 (compactMembers members)).length + 1 ≤ n) (rest : List UInt8) :
    readMembers n (Text.utf8 (compactMembers members) ++ 0x7D :: rest)
      = some (members.map fun m => (some m.1, m.2), rest) := by
  obtain ⟨n, rfl⟩ : ∃ k, n = k + 1 := ⟨n - 1, by omega⟩
  cases members with
  | nil => exact absurd rfl hne
  | cons m ms =>
      obtain ⟨key, j⟩ := m
      rw [PlainMembers] at hmembers
      cases ms with
      | nil =>
          rw [utf8_compactMember, List.length_append, List.length_cons] at hn
          rw [utf8_compactMember, List.append_assoc, List.cons_append]
          exact readMembers_last key (readValue_compact j hmembers.1 n (by omega) (0x7D :: rest))
      | cons m ms =>
          rw [utf8_compactMembers, List.length_append, List.length_cons, List.length_append,
            List.length_cons] at hn
          rw [utf8_compactMembers, List.append_assoc, List.cons_append, List.append_assoc,
            List.cons_append]
          exact readMembers_more key (readValue_compact j hmembers.1 n (by omega) _)
            (readMembers_compact (m :: ms) (List.cons_ne_nil m ms) hmembers.2 n (by omega) rest)

end

/-- A plain value is read back from its compact text. -/
theorem read?_compact {j : Json} (h : j.Plain) : read? (Text.utf8 j.compact) = some j := by
  have hread := readValue_compact j h ((Text.utf8 j.compact).length + 1) (Nat.le_succ _) []
  rw [List.append_nil] at hread
  rw [read?, hread]
  rfl

end ViewPress.Json
