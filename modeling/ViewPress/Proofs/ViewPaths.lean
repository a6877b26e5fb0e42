import Mathlib.Data.List.DropRight
import ViewPress.Proofs.JsonText
import ViewPress.View.Engine

/-!
# Reading a view path twice

The relative path of a request has no backslash and no slash in front, so reading it
again changes nothing but for a home marker that is left. Neither reading a path nor
taking its key makes it longer, counted in bytes.
-/

namespace ViewPress

/-! ## Spellings -/

namespace ViewPath

/-- The path starts with a home marker. -/
def HomeMarked (cs : List Char) : Prop :=
  ['~', '/'] <+: cs

instance (cs : List Char) : Decidable (HomeMarked cs) :=
  inferInstanceAs (Decidable (['~', '/'] <+: cs))

/-- The path is written as the path of a template is: names with single slashes between
them, none of them a dot, and no home marker in front. -/
def Canonical (path : String) : Prop :=
  (∀ n ∈ Path.split (Text.utf8 path), n ≠ [] ∧ n ≠ Path.dot) ∧ ¬ HomeMarked path.toList

instance (path : String) : Decidable (Canonical path) :=
  inferInstanceAs (Decidable (_ ∧ _))

theorem dropHome_of_not_homeMarked {cs : List Char} (h : ¬ HomeMarked cs) : dropHome cs = cs := by
  unfold dropHome
  split
  · next rest => exact absurd ⟨rest, rfl⟩ h
  · rfl

theorem dropHome_suffix (cs : List Char) : dropHome cs <:+ cs := by
  unfold dropHome
  split
  · next rest => exact List.suffix_append ['~', '/'] rest
  · exact List.suffix_rfl

theorem forwardSlashes_relative (cs : List Char) :
    forwardSlashes (relative cs) = relative cs := by
  have hslashes : ∀ c ∈ forwardSlashes cs, c ≠ '\\' := by
    intro c hc
    obtain ⟨c', -, rfl⟩ := List.mem_map.mp hc
    by_cases h : c' = '\\' <;> simp [h]
  refine (List.map_congr_left fun c hc => ?_).trans (List.map_id _)
  have hmem := (dropHome_suffix _).subset ((List.dropWhile_suffix _).subset hc)
  exact if_neg (hslashes c hmem)

theorem relative_relative_of_not_homeMarked {cs : List Char} (h : ¬ HomeMarked (relative cs)) :
    relative (relative cs) = relative cs := by
  rw [relative, forwardSlashes_relative, dropHome_of_not_homeMarked h]
  exact List.dropWhile_idempotent _ _

/-- A path that still starts with a home marker loses it when it is read once more. -/
theorem length_relative_relative_lt {cs : List Char} (h : HomeMarked (relative cs)) :
    (relative (relative cs)).length < (relative cs).length := by
  obtain ⟨rest, hrest⟩ := h
  have hle : (relative (relative cs)).length ≤ rest.length := by
    rw [relative, forwardSlashes_relative, ← hrest]
    exact (List.dropWhile_suffix _).length_le
  rw [← hrest] at hle ⊢
  simp only [List.cons_append, List.nil_append, List.length_cons] at hle ⊢
  omega

end ViewPath

open ViewPath (Canonical HomeMarked lookupKey)
open ViewEngine (requested)

@[simp]
theorem toList_requested (request : String) :
    (requested request).toList = ViewPath.relative request.toList :=
  String.toList_ofList

theorem lookupKey_requested_iff (request : String) :
    lookupKey (requested request) = lookupKey request ↔ ¬ HomeMarked (requested request).toList := by
  rw [lookupKey, lookupKey, String.ofList_inj, toList_requested]
  constructor
  · intro heq hmarked
    have hlength := congrArg List.length heq
    rw [List.length_map, List.length_map] at hlength
    exact absurd hlength (Nat.ne_of_lt (ViewPath.length_relative_relative_lt hmarked))
  · intro h
    rw [ViewPath.relative_relative_of_not_homeMarked h]

/-! ## Bytes -/

namespace Text

theorem length_utf8 (s : String) : (utf8 s).length = byteSize s.toList := by
  rw [utf8_eq]
  induction s.toList with
  | nil => rfl
  | cons c cs ih =>
      rw [List.flatMap_cons, List.length_append, String.length_utf8EncodeChar, ih, byteSize]

theorem utf8_of_ofUtf8? {bytes : List UInt8} {s : String} (h : ofUtf8? bytes = some s) :
    utf8 s = bytes := by
  rw [ofUtf8?, String.fromUTF8?] at h
  split at h
  · cases h
    rfl
  · cases h

theorem utf8_injective : Function.Injective utf8 := by
  intro s t h
  have hs := ofUtf8?_utf8 s
  rw [h, ofUtf8?_utf8] at hs
  exact (Option.some.inj hs).symm

theorem byteSize_le_of_suffix {as bs : List Char} (h : as <:+ bs) : byteSize as ≤ byteSize bs := by
  obtain ⟨front, rfl⟩ := h
  rw [byteSize_append]
  omega

theorem byteSize_map {f : Char → Char} (hf : ∀ c, (f c).utf8Size = c.utf8Size) (cs : List Char) :
    byteSize (cs.map f) = byteSize cs := by
  induction cs with
  | nil => rfl
  | cons c cs ih => rw [List.map_cons, byteSize, byteSize, hf, ih]

theorem utf8Size_toLower (c : Char) : c.toLower.utf8Size = c.utf8Size := by
  unfold Char.toLower
  split
  · next h =>
      have hle : c.val.toNat ≤ 90 := h.2
      have hsmall : c.val.toNat ≤ 127 := by omega
      rw [Char.utf8Size_eq_one_iff.mpr hsmall, Char.utf8Size_eq_one_iff]
      show (c.val + 32).toNat ≤ 127
      rw [UInt32.toNat_add]
      show (c.val.toNat + 32) % 2 ^ 32 ≤ 127
      omega
  · rfl

end Text

namespace ViewPath

theorem byteSize_relative_le (cs : List Char) :
    Text.byteSize (relative cs) ≤ Text.byteSize cs := by
  have hslashes : Text.byteSize (forwardSlashes cs) = Text.byteSize cs := by
    refine Text.byteSize_map (fun c => ?_) cs
    split
    · next h => rw [h]; rfl
    · rfl
  rw [← hslashes]
  exact Text.byteSize_le_of_suffix ((List.dropWhile_suffix _).trans (dropHome_suffix _))

theorem byteSize_lookupKey (path : String) :
    Text.byteSize (lookupKey path).toList = Text.byteSize (relative path.toList) := by
  rw [lookupKey, String.toList_ofList, Text.byteSize_map Text.utf8Size_toLower]

end ViewPath

end ViewPress
