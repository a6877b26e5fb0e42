import Mathlib.Algebra.Group.Nat.Defs
import ViewPress.Module.Format
import ViewPress.Proofs.JsonText

/-!
# Modules read back from their bytes

A module is written as a JSON payload behind a header. The payload is plain, so its
text is read back to the same JSON value. What is left is the nesting limit of the
reader: it gives up on a payload with more than 127 arrays and objects inside one
another, and the writer has no such limit. `Json.nesting` counts the levels, and
the reader succeeds on what was written for a module exactly when there is room for
all of them.

The header is read back field by field. Its length field has eight bytes, so a
payload of 2 ^ 64 bytes or more does not fit. The digest is any function to 32 bytes.
-/

namespace ViewPress.Json

/-! ## Levels -/

mutual

/-- How many arrays and objects are inside one another. -/
def nesting : Json → Nat
  | .arr items => nestingItems items + 1
  | .obj members => nestingMembers members + 1
  | _ => 0

def nestingItems : List Json → Nat
  | [] => 0
  | j :: js => max j.nesting (nestingItems js)

def nestingMembers : List (String × Json) → Nat
  | [] => 0
  | (_, j) :: rest => max j.nesting (nestingMembers rest)

end

theorem nesting_str (s : String) : (Json.str s).nesting = 0 := by
  simp only [nesting]

theorem nesting_ofStrings (texts : List String) : (ofStrings texts).nesting = 1 := by
  have hitems : nestingItems (texts.map .str) = 0 := by
    induction texts with
    | nil => rw [List.map_nil, nestingItems]
    | cons s ss ih => rw [List.map_cons, nestingItems, ih, nesting_str, Nat.max_self]
  rw [ofStrings, nesting, hitems]

theorem strings?_ofStrings (room : Nat) (texts : List String) :
    (ofStrings texts).strings? (room + 1) = some texts := by
  have hmap : (texts.map Json.str).mapM str? = some texts := by
    induction texts with
    | nil => rfl
    | cons s ss ih =>
        rw [List.map_cons, List.mapM_cons, ih]
        rfl
  exact hmap

/-- What was written for a list is read back, item by item, when there is room for each. -/
theorem mapM_eq_ite {α : Type} {toJson : α → Json} {read : Json → Option α} {room : Nat}
    {xs : List α}
    (h : ∀ x ∈ xs, read (toJson x) = if (toJson x).nesting ≤ room then some x else none) :
    (xs.map toJson).mapM read
      = if nestingItems (xs.map toJson) ≤ room then some xs else none := by
  induction xs with
  | nil =>
      rw [List.map_nil, nestingItems, if_pos (Nat.zero_le room)]
      rfl
  | cons x xs ih =>
      obtain ⟨hx, hxs⟩ := List.forall_mem_cons.mp h
      rw [List.map_cons, List.mapM_cons, ih hxs, hx, nestingItems]
      by_cases hroom : (toJson x).nesting ≤ room
      · by_cases hrest : nestingItems (xs.map toJson) ≤ room
        · rw [if_pos hroom, if_pos hrest, if_pos (Nat.max_le.mpr ⟨hroom, hrest⟩)]
          rfl
        · rw [if_pos hroom, if_neg hrest, if_neg fun hmax => hrest (Nat.max_le.mp hmax).2]
          rfl
      · rw [if_neg hroom, if_neg fun hmax => hroom (Nat.max_le.mp hmax).1]
        rfl

end ViewPress.Json

namespace ViewPress

open Json (mapM_eq_ite nesting_ofStrings strings?_ofStrings)

/-! ## The payload -/

theorem Instr.toJsons_eq_map (is : List Instr) : Instr.toJsons is = is.map Instr.toJson := by
  induction is with
  | nil => rw [Instr.toJsons, List.map_nil]
  | cons i is ih => rw [Instr.toJsons, ih, List.map_cons]

theorem Instr.nesting_write (text : String) : (Instr.write text).toJson.nesting = 1 := by
  simp only [Instr.toJson, Json.nesting, Json.nestingMembers]
  omega

theorem Instr.nesting_emit (path : List String) : (Instr.emit path).toJson.nesting = 2 := by
  simp only [Instr.toJson, Json.nesting, Json.nestingMembers, nesting_ofStrings]
  omega

theorem Instr.nesting_branch (cond : List String) (negate : Bool) (yes no : List Instr) :
    (Instr.branch cond negate yes no).toJson.nesting
      = max (Json.nestingItems (yes.map Instr.toJson)) (Json.nestingItems (no.map Instr.toJson))
        + 3 := by
  simp only [Instr.toJson, Instr.toJsons_eq_map, Json.nesting, Json.nestingMembers,
    nesting_ofStrings]
  omega

theorem Instr.nesting_forEach (binding : String) (source : List String) (body : List Instr) :
    (Instr.forEach binding source body).toJson.nesting
      = Json.nestingItems (body.map Instr.toJson) + 3 := by
  simp only [Instr.toJson, Instr.toJsons_eq_map, Json.nesting, Json.nestingMembers,
    nesting_ofStrings]
  omega

theorem Instr.ofJson?_branch (room : Nat) (cond : List String) (negate : Bool)
    (yes no : List Instr) :
    Instr.ofJson? (room + 3) (Instr.branch cond negate yes no).toJson = (do
      let yes ← (yes.map Instr.toJson).mapM (Instr.ofJson? room)
      let no ← (no.map Instr.toJson).mapM (Instr.ofJson? room)
      return .branch cond negate yes no) := by
  rw [Instr.toJson, Instr.toJsons_eq_map, Instr.toJsons_eq_map, Instr.ofJson?]
  show (do
    let cond ← (Json.ofStrings cond).strings? (room + 1)
    let yes ← (yes.map Instr.toJson).mapM (Instr.ofJson? room)
    let no ← (no.map Instr.toJson).mapM (Instr.ofJson? room)
    return Instr.branch cond negate yes no) = _
  rw [strings?_ofStrings]
  rfl

theorem Instr.ofJson?_forEach (room : Nat) (binding : String) (source : List String)
    (body : List Instr) :
    Instr.ofJson? (room + 3) (Instr.forEach binding source body).toJson = (do
      let body ← (body.map Instr.toJson).mapM (Instr.ofJson? room)
      return .forEach binding source body) := by
  rw [Instr.toJson, Instr.toJsons_eq_map, Instr.ofJson?]
  show (do
    let source ← (Json.ofStrings source).strings? (room + 1)
    let body ← (body.map Instr.toJson).mapM (Instr.ofJson? room)
    return Instr.forEach binding source body) = _
  rw [strings?_ofStrings]
  rfl

/-- An instruction is read back when there is room for its levels, and not otherwise. -/
theorem Instr.ofJson?_toJson (i : Instr) (room : Nat) :
    Instr.ofJson? room i.toJson = if i.toJson.nesting ≤ room then some i else none := by
  match i with
  | .write text =>
      rw [Instr.nesting_write]
      match room with
      | 0 => rfl
      | room + 1 =>
          rw [if_pos (by omega)]
          rfl
  | .emit path =>
      rw [Instr.nesting_emit]
      match room with
      | 0 => rfl
      | 1 => rfl
      | room + 2 =>
          rw [if_pos (by omega), Instr.toJson, Instr.ofJson?, strings?_ofStrings]
          rfl
  | .branch cond negate yes no =>
      rw [Instr.nesting_branch]
      match room with
      | 0 => rfl
      | 1 => rfl
      | 2 => rfl
      | room + 3 =>
          rw [Instr.ofJson?_branch, mapM_eq_ite fun x hx => Instr.ofJson?_toJson x room,
            mapM_eq_ite fun x hx => Instr.ofJson?_toJson x room]
          by_cases hyes : Json.nestingItems (yes.map Instr.toJson) ≤ room
          · by_cases hno : Json.nestingItems (no.map Instr.toJson) ≤ room
            · rw [if_pos hyes, if_pos hno, if_pos (by omega)]
              rfl
            · rw [if_pos hyes, if_neg hno, if_neg (by omega)]
              rfl
          · rw [if_neg hyes]
            exact (if_neg (by omega)).symm
  | .forEach binding source body =>
      rw [Instr.nesting_forEach]
      match room with
      | 0 => rfl
      | 1 => rfl
      | 2 => rfl
      | room + 3 =>
          rw [Instr.ofJson?_forEach, mapM_eq_ite fun x hx => Instr.ofJson?_toJson x room]
          by_cases hbody : Json.nestingItems (body.map Instr.toJson) ≤ room
          · rw [if_pos hbody, if_pos (by omega)]
            rfl
          · rw [if_neg hbody, if_neg (by omega)]
            rfl
termination_by sizeOf i
decreasing_by
  all_goals
    have hlt := List.sizeOf_lt_of_mem hx
    simp only [Instr.branch.sizeOf_spec, Instr.forEach.sizeOf_spec]
    omega

theorem AttributeDef.nesting_toJson (a : AttributeDef) : a.toJson.nesting = 2 := by
  simp only [AttributeDef.toJson, Json.nesting, Json.nestingMembers, nesting_ofStrings]
  omega

theorem AttributeDef.ofJson?_toJson (a : AttributeDef) (room : Nat) :
    AttributeDef.ofJson? room a.toJson = if a.toJson.nesting ≤ room then some a else none := by
  rw [AttributeDef.nesting_toJson]
  match room with
  | 0 => rfl
  | 1 => rfl
  | room + 2 =>
      rw [if_pos (by omega)]
      show (do
        let args ← (Json.ofStrings a.args).strings? (room + 1)
        return ({ name := a.name, args } : AttributeDef)) = _
      rw [strings?_ofStrings]
      rfl

theorem TypeKind.ofKeyword?_keyword (k : TypeKind) : ofKeyword? k.keyword = some k := by
  cases k <;> rfl

theorem TypeDef.nesting_toJson (t : TypeDef) :
    t.toJson.nesting = max (Json.nestingItems (t.attributes.map AttributeDef.toJson))
      (Json.nestingItems (t.body.map Instr.toJson)) + 2 := by
  simp only [TypeDef.toJson, Instr.toJsons_eq_map, Json.nesting, Json.nestingMembers,
    nesting_ofStrings]
  omega

theorem TypeDef.ofJson?_succ (t : TypeDef) (room : Nat) :
    TypeDef.ofJson? (room + 2) t.toJson = (do
      let attributes ← (t.attributes.map AttributeDef.toJson).mapM (AttributeDef.ofJson? room)
      let body ← (t.body.map Instr.toJson).mapM (Instr.ofJson? room)
      return { t with attributes, body }) := by
  rw [TypeDef.toJson, Instr.toJsons_eq_map, TypeDef.ofJson?]
  show (do
    let kind ← TypeKind.ofKeyword? t.kind.keyword
    let bases ← (Json.ofStrings t.bases).strings? (room + 1)
    let attributes ← (t.attributes.map AttributeDef.toJson).mapM (AttributeDef.ofJson? room)
    let body ← (t.body.map Instr.toJson).mapM (Instr.ofJson? room)
    return ({ name := t.name, kind, bases, attributes, body } : TypeDef)) = _
  rw [TypeKind.ofKeyword?_keyword, strings?_ofStrings]
  rfl

theorem TypeDef.ofJson?_toJson (t : TypeDef) (room : Nat) :
    TypeDef.ofJson? room t.toJson = if t.toJson.nesting ≤ room then some t else none := by
  rw [TypeDef.nesting_toJson]
  match room with
  | 0 => rfl
  | 1 =>
      rw [if_neg (by omega), TypeDef.toJson, TypeDef.ofJson?]
      show (do
        let kind ← TypeKind.ofKeyword? t.kind.keyword
        none) = _
      rw [TypeKind.ofKeyword?_keyword]
      rfl
  | room + 2 =>
      rw [TypeDef.ofJson?_succ, mapM_eq_ite fun a _ => a.ofJson?_toJson room,
        mapM_eq_ite fun i _ => i.ofJson?_toJson room]
      by_cases hattributes : Json.nestingItems (t.attributes.map AttributeDef.toJson) ≤ room
      · by_cases hbody : Json.nestingItems (t.body.map Instr.toJson) ≤ room
        · rw [if_pos hattributes, if_pos hbody, if_pos (by omega)]
          rfl
        · rw [if_pos hattributes, if_neg hbody, if_neg (by omega)]
          rfl
      · rw [if_neg hattributes]
        exact (if_neg (by omega)).symm

theorem Module.nesting_toJson (m : Module) :
    m.toJson.nesting = Json.nestingItems (m.types.map TypeDef.toJson) + 2 := by
  simp only [Module.toJson, Json.nesting, Json.nestingMembers]
  omega

/-- A module is read back from its JSON form if that keeps to the nesting limit. -/
theorem Module.ofJson?_toJson (m : Module) :
    Module.ofJson? m.toJson = if m.toJson.nesting ≤ Json.nestingLimit then some m else none := by
  rw [Module.nesting_toJson]
  show (do
    let types ← (m.types.map TypeDef.toJson).mapM (TypeDef.ofJson? (Json.nestingLimit - 2))
    return ({ name := m.name, types } : Module)) = _
  rw [mapM_eq_ite fun t _ => t.ofJson?_toJson (Json.nestingLimit - 2), Json.nestingLimit]
  by_cases htypes : Json.nestingItems (m.types.map TypeDef.toJson) ≤ 127 - 2
  · rw [if_pos htypes, if_pos (by omega)]
    rfl
  · rw [if_neg htypes, if_neg (by omega)]
    rfl

theorem Json.plainItems_map {α : Type} {toJson : α → Json} {xs : List α}
    (h : ∀ x ∈ xs, (toJson x).Plain) : Json.PlainItems (xs.map toJson) := by
  induction xs with
  | nil => simp only [List.map_nil, Json.PlainItems]
  | cons x xs ih =>
      obtain ⟨hx, hxs⟩ := List.forall_mem_cons.mp h
      rw [List.map_cons, Json.PlainItems]
      exact ⟨hx, ih hxs⟩

theorem Json.plain_ofStrings (texts : List String) : (Json.ofStrings texts).Plain := by
  rw [Json.ofStrings, Json.Plain]
  refine Json.plainItems_map fun s _ => ?_
  simp only [Json.Plain]

theorem Instr.plain_toJson (i : Instr) : i.toJson.Plain := by
  match i with
  | .write text => simp only [Instr.toJson, Json.Plain, Json.PlainMembers, and_self]
  | .emit path =>
      simp only [Instr.toJson, Json.Plain, Json.PlainMembers, and_true]
      exact Json.plain_ofStrings path
  | .branch cond negate yes no =>
      simp only [Instr.toJson, Instr.toJsons_eq_map, Json.Plain, Json.PlainMembers, and_true,
        true_and]
      exact ⟨Json.plain_ofStrings cond, Json.plainItems_map fun x hx => Instr.plain_toJson x,
        Json.plainItems_map fun x hx => Instr.plain_toJson x⟩
  | .forEach binding source body =>
      simp only [Instr.toJson, Instr.toJsons_eq_map, Json.Plain, Json.PlainMembers, and_true,
        true_and]
      exact ⟨Json.plain_ofStrings source, Json.plainItems_map fun x hx => Instr.plain_toJson x⟩
termination_by sizeOf i
decreasing_by
  all_goals
    have hlt := List.sizeOf_lt_of_mem hx
    simp only [Instr.branch.sizeOf_spec, Instr.forEach.sizeOf_spec]
    omega

theorem TypeDef.plain_toJson (t : TypeDef) : t.toJson.Plain := by
  simp only [TypeDef.toJson, Instr.toJsons_eq_map, Json.Plain, Json.PlainMembers, and_true,
    true_and]
  refine ⟨Json.plain_ofStrings t.bases, Json.plainItems_map fun a _ => ?_,
    Json.plainItems_map fun i _ => i.plain_toJson⟩
  simp only [AttributeDef.toJson, Json.Plain, Json.PlainMembers, and_true, true_and]
  exact Json.plain_ofStrings a.args

theorem Module.plain_toJson (m : Module) : m.toJson.Plain := by
  simp only [Module.toJson, Json.Plain, Json.PlainMembers, and_true, true_and]
  exact Json.plainItems_map fun t _ => t.plain_toJson

/-- The text of a module is read back to its JSON form. -/
theorem Module.read?_payload (m : Module) : Json.read? (Text.utf8 m.payload) = some m.toJson :=
  Json.read?_compact m.plain_toJson

/-! ## The header -/

theorem length_littleEndian (count n : Nat) : (littleEndian count n).length = count := by
  induction count generalizing n with
  | zero => rfl
  | succ count ih => rw [littleEndian, List.length_cons, ih]

/-- The bytes of a number keep what fits them. -/
theorem ofLittleEndian_littleEndian (count n : Nat) :
    ofLittleEndian (littleEndian count n) = n % 256 ^ count := by
  induction count generalizing n with
  | zero => rw [Nat.pow_zero, Nat.mod_one]; rfl
  | succ count ih =>
      have hcons : ofLittleEndian (littleEndian (count + 1) n)
          = n % 256 + 256 * ofLittleEndian (littleEndian count (n / 256)) := rfl
      rw [hcons, ih, Nat.pow_succ', Nat.mod_mul]

namespace Module

/-- A field of the header is found at its place. -/
theorem take_drop_field {before field after : List UInt8} {i n : Nat} (hi : before.length = i)
    (hn : field.length = n) : ((before ++ (field ++ after)).drop i).take n = field := by
  rw [← hi, ← hn, List.drop_left, List.take_left]

/-- What a reader makes of bytes with a whole header, told by the fields. -/
theorem decodeWith_fields (hash : List UInt8 → Digest.Hash)
    {version flags size digest : List UInt8} (payload : List UInt8) (hversion : version.length = 2)
    (hflags : flags.length = 2) (hsize : size.length = 8) (hdigest : digest.length = 32) :
    decodeWith hash (magic ++ (version ++ (flags ++ (size ++ (digest ++ payload))))) =
      if ofLittleEndian version ≠ formatVersion then
        .error (.unsupportedVersion (ofLittleEndian version))
      else if payload.length ≠ ofLittleEndian size then
        .error (.truncated (min (headerLength + ofLittleEndian size) Number.maxUnsigned)
          (headerLength + payload.length))
      else if (hash payload).toList ≠ digest then .error .checksumMismatch
      else ((Json.read? payload).bind ofJson?).elim (.error .malformed) .ok := by
  generalize hbytes : magic ++ (version ++ (flags ++ (size ++ (digest ++ payload)))) = bytes
  have hmagic : magic.length = 4 := rfl
  have hstart : bytes.take 4 = magic := by
    rw [← hbytes]
    rfl
  have hlength : bytes.length = headerLength + payload.length := by
    simp only [← hbytes, List.length_append, hmagic, hversion, hflags, hsize, hdigest, headerLength]
    omega
  have hversionAt : (bytes.drop 4).take 2 = version := by
    rw [← hbytes]
    exact take_drop_field hmagic hversion
  have hsizeAt : (bytes.drop 8).take 8 = size := by
    rw [← hbytes, ← List.append_assoc, ← List.append_assoc]
    exact take_drop_field (by simp [hmagic, hversion, hflags]) hsize
  have hdigestAt : (bytes.drop 16).take 32 = digest := by
    rw [← hbytes, ← List.append_assoc, ← List.append_assoc, ← List.append_assoc]
    exact take_drop_field (by simp [hmagic, hversion, hflags, hsize]) hdigest
  have hpayload : bytes.drop headerLength = payload := by
    rw [← hbytes, ← List.append_assoc, ← List.append_assoc, ← List.append_assoc,
      ← List.append_assoc]
    exact List.drop_left' (by simp [hmagic, hversion, hflags, hsize, hdigest, headerLength])
  simp only [decodeWith]
  rw [if_neg (by rw [hstart]; exact fun h => h rfl), hlength, if_neg (by omega), hversionAt,
    hsizeAt, hdigestAt, hpayload]
  cases (Json.read? payload).bind ofJson? <;> rfl

/-- What a reader makes of a payload behind its header. Only the length of the payload can
be told from the header wrongly, when it has more digits than the field. -/
theorem decodeWith_frame (hash : List UInt8 → Digest.Hash) (payload : List UInt8) :
    decodeWith hash (frame hash payload) =
      if payload.length < 2 ^ 64 then
        match (Json.read? payload).bind ofJson? with
        | some m => .ok m
        | none => .error .malformed
      else
        .error (.truncated (min (headerLength + payload.length % 2 ^ 64) Number.maxUnsigned)
          (headerLength + payload.length)) := by
  have hframe : frame hash payload
      = magic ++ (littleEndian 2 formatVersion ++ (littleEndian 2 0
        ++ (littleEndian 8 payload.length ++ ((hash payload).toList ++ payload)))) := by
    simp only [frame, header, List.append_assoc]
  have hone : ofLittleEndian (littleEndian 2 formatVersion) = formatVersion := rfl
  have hrange : 256 ^ 8 = 2 ^ 64 := rfl
  rw [hframe, decodeWith_fields hash payload (length_littleEndian 2 _) (length_littleEndian 2 _)
    (length_littleEndian 8 _) Vector.length_toList, hone, if_neg (fun h => h rfl),
    ofLittleEndian_littleEndian, hrange]
  by_cases hfits : payload.length < 2 ^ 64
  · rw [if_pos hfits, if_neg (by omega), if_neg (fun h => h rfl)]
    cases (Json.read? payload).bind ofJson? <;> rfl
  · rw [if_neg hfits, if_pos (by omega)]

/-- What a reader makes of a module that was written: the module itself if its payload keeps
to the nesting limit, and no module if it does not. -/
theorem decodeWith_encodeWith (hash : List UInt8 → Digest.Hash) (m : Module) :
    decodeWith hash (encodeWith hash m) =
      if (Text.utf8 m.payload).length < 2 ^ 64 then
        if m.toJson.nesting ≤ Json.nestingLimit then .ok m else .error .malformed
      else
        .error (.truncated
          (min (headerLength + (Text.utf8 m.payload).length % 2 ^ 64) Number.maxUnsigned)
          (headerLength + (Text.utf8 m.payload).length)) := by
  rw [encodeWith, decodeWith_frame, read?_payload, Option.bind_some, ofJson?_toJson]
  by_cases hnesting : m.toJson.nesting ≤ Json.nestingLimit
  · rw [if_pos hnesting, if_pos hnesting]
  · rw [if_neg hnesting, if_neg hnesting]

end Module

end ViewPress
