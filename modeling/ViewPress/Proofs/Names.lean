import ViewPress.Template.ClassName
import ViewPress.Text.Identifier

/-!
# Names of the view language

A path is one or more identifiers, and a dotted name is a path written with points
between its identifiers. Templates are checked for names by splitting at points;
that this finds exactly the identifiers of a dotted name is the first thing shown
here. The second is that the class of a view always has a name: every character of
it is a letter, a digit or an underscore, whatever the path of the template holds.
-/

namespace ViewPress.Text

/-- One or more identifiers. -/
def IsPath (segments : List String) : Prop :=
  segments ≠ [] ∧ ∀ x ∈ segments, isIdent x.toList = true

/-- The text is a dotted identifier. -/
def IsDotted (name : String) : Prop :=
  ∃ segments, IsPath segments ∧ name = joinDots segments

/-! ## Splitting at points -/

theorem splitOn_ne_nil (p : Char → Bool) (cs : List Char) : splitOn p cs ≠ [] := by
  cases cs with
  | nil => exact List.cons_ne_nil _ _
  | cons c cs =>
      rw [splitOn]
      split
      · exact List.cons_ne_nil _ _
      · split <;> exact List.cons_ne_nil _ _

/-- The pieces with the character put back between them are the text again. -/
theorem intercalate_splitOn (x : Char) (cs : List Char) :
    [x].intercalate (splitOn (· == x) cs) = cs := by
  induction cs with
  | nil => rfl
  | cons c cs ih =>
      rw [splitOn]
      cases hpieces : splitOn (· == x) cs with
      | nil => exact absurd hpieces (splitOn_ne_nil _ cs)
      | cons w ws =>
          rw [hpieces] at ih
          split
          · next hc =>
              obtain rfl : c = x := by simpa using hc
              rw [List.intercalate_cons_cons, ih]
              rfl
          · cases ws with
            | nil => simpa using ih
            | cons v vs =>
                rw [List.intercalate_cons_cons] at ih ⊢
                rw [← ih]
                rfl

theorem splitOn_append (p : Char → Bool) {w : List Char} (hw : ∀ c ∈ w, p c = false) {x : Char}
    (hx : p x = true) (cs : List Char) : splitOn p (w ++ x :: cs) = w :: splitOn p cs := by
  induction w with
  | nil => rw [List.nil_append, splitOn, if_pos hx]
  | cons c w ih =>
      obtain ⟨hc, hw⟩ := List.forall_mem_cons.mp hw
      rw [List.cons_append, splitOn, if_neg (by simp [hc]), ih hw]

theorem splitOn_of_forall (p : Char → Bool) {w : List Char} (hw : ∀ c ∈ w, p c = false) :
    splitOn p w = [w] := by
  induction w with
  | nil => rfl
  | cons c w ih =>
      obtain ⟨hc, hw⟩ := List.forall_mem_cons.mp hw
      rw [splitOn, if_neg (by simp [hc]), ih hw]

theorem splitOn_intercalate (x : Char) {words : List (List Char)} (hne : words ≠ [])
    (hwords : ∀ w ∈ words, x ∉ w) : splitOn (· == x) ([x].intercalate words) = words := by
  have hfree {w : List Char} (hw : x ∉ w) : ∀ c ∈ w, (c == x) = false := by
    intro c hc
    rw [beq_eq_false_iff_ne]
    rintro rfl
    exact hw hc
  induction words with
  | nil => exact absurd rfl hne
  | cons w words ih =>
      obtain ⟨hw, hwords⟩ := List.forall_mem_cons.mp hwords
      cases words with
      | nil =>
          rw [List.intercalate_singleton]
          exact splitOn_of_forall _ (hfree hw)
      | cons v vs =>
          rw [List.intercalate_cons_cons, List.append_assoc, List.singleton_append,
            splitOn_append _ (hfree hw) (beq_self_eq_true x), ih (List.cons_ne_nil v vs) hwords]

theorem isPath_of_dotted? {cs : List Char} {segments : List String}
    (h : dotted? cs = some segments) : IsPath segments ∧ joinDots segments = String.ofList cs := by
  simp only [dotted?] at h
  split at h
  · next hall =>
      cases h
      rw [List.all_eq_true] at hall
      refine ⟨⟨?_, ?_⟩, ?_⟩
      · rw [ne_eq, List.map_eq_nil_iff]
        exact splitOn_ne_nil _ cs
      · intro x hx
        obtain ⟨w, hw, rfl⟩ := List.mem_map.mp hx
        rw [String.toList_ofList]
        exact hall w hw
      · rw [← String.toList_inj, joinDots, String.toList_intercalate, List.map_map]
        have hid : String.toList ∘ String.ofList = id := funext fun _ => String.toList_ofList
        rw [hid, List.map_id]
        exact (intercalate_splitOn '.' cs).trans String.toList_ofList.symm
  · cases h

theorem dot_notMem_of_isIdent {cs : List Char} (h : isIdent cs = true) : '.' ∉ cs := by
  intro hmem
  cases cs with
  | nil => cases hmem
  | cons c cs =>
      rw [isIdent, Bool.and_eq_true, List.all_eq_true] at h
      rcases List.mem_cons.mp hmem with rfl | hmem
      · exact absurd h.1 (by decide)
      · exact absurd (h.2 '.' hmem) (by decide)

/-- The text of a dotted name is taken apart into its identifiers, and no other text is. -/
theorem dotted?_eq_some_iff {cs : List Char} {segments : List String} :
    dotted? cs = some segments ↔ IsPath segments ∧ cs = (joinDots segments).toList := by
  constructor
  · intro h
    obtain ⟨hpath, hjoin⟩ := isPath_of_dotted? h
    exact ⟨hpath, by rw [hjoin, String.toList_ofList]⟩
  · rintro ⟨⟨hne, hident⟩, rfl⟩
    have hsplit : splitOn (· == '.') (joinDots segments).toList = segments.map String.toList := by
      rw [joinDots, String.toList_intercalate]
      refine splitOn_intercalate '.' (by simpa using hne) ?_
      rw [List.forall_mem_map]
      exact fun x hx => dot_notMem_of_isIdent (hident x hx)
    have hall : (segments.map String.toList).all isIdent = true := by
      simpa [List.all_eq_true] using hident
    have hid : String.ofList ∘ String.toList = id := funext fun _ => String.ofList_toList
    simp only [dotted?, hsplit]
    rw [if_pos hall, List.map_map, hid, List.map_id]

theorem dotted?_isSome_iff {name : String} : (dotted? name.toList).isSome ↔ IsDotted name := by
  rw [Option.isSome_iff_exists, IsDotted]
  simp only [dotted?_eq_some_iff, String.toList_inj]

theorem isDotted_of_dotted? {name : String} (h : dotted? name.toList ≠ none) :
    IsDotted name := by
  obtain ⟨segments, hsegments⟩ := Option.ne_none_iff_exists'.mp h
  obtain ⟨hpath, hjoin⟩ := isPath_of_dotted? hsegments
  exact ⟨segments, hpath, by rw [hjoin, String.ofList_toList]⟩

theorem isDotted_of_isIdent {name : String} (h : isIdent name.toList = true) : IsDotted name :=
  ⟨[name], ⟨List.cons_ne_nil _ _, by simpa using h⟩, by simp [joinDots]⟩

theorem isIdent_append {cs ds : List Char} (hcs : isIdent cs = true)
    (hds : ∀ d ∈ ds, isIdentRest d = true) : isIdent (cs ++ ds) = true := by
  cases cs with
  | nil => cases hcs
  | cons c cs =>
      rw [isIdent, Bool.and_eq_true] at hcs
      rw [List.cons_append, isIdent, List.all_append, hcs.1, hcs.2, List.all_eq_true.mpr hds]
      rfl

end ViewPress.Text

namespace ViewPress.Template

open Text (isIdent isIdentRest)

/-! ## Class names -/

theorem isIdentRest_digitChar {n : Nat} (h : n < 16) : isIdentRest n.digitChar = true := by
  revert n
  decide

theorem isIdentRest_of_mem_hexOfNat (n : Nat) :
    ∀ c ∈ Text.hexOfNat n, isIdentRest c = true := by
  induction n using Nat.strongRecOn with
  | _ n ih =>
      intro c hc
      rw [Text.hexOfNat, Nat.toDigits_eq_if (by decide)] at hc
      split at hc
      · next hn =>
          rw [List.mem_singleton.mp hc]
          exact isIdentRest_digitChar hn
      · rcases List.mem_append.mp hc with hc | hc
        · exact ih (n / 16) (by omega) c hc
        · rw [List.mem_singleton.mp hc]
          exact isIdentRest_digitChar (Nat.mod_lt n (by decide))

theorem isIdentRest_of_mem_classStem {p : List Char} :
    ∀ c ∈ classStem p, isIdentRest c = true := by
  intro c hc
  obtain ⟨d, -, rfl⟩ := List.mem_map.mp hc
  split
  · next hd => rw [isIdentRest, hd, Bool.true_or]
  · decide

theorem isIdentRest_of_mem_intercalate {words : List (List Char)}
    (h : ∀ w ∈ words, ∀ c ∈ w, isIdentRest c = true) :
    ∀ c ∈ ['_'].intercalate words, isIdentRest c = true := by
  induction words with
  | nil => simp
  | cons w words ih =>
      cases words with
      | nil => simpa using h
      | cons v vs =>
          intro c hc
          rw [List.intercalate_cons_cons, List.append_assoc, List.mem_append] at hc
          rcases hc with hc | hc
          · exact h w List.mem_cons_self c hc
          · rcases List.mem_cons.mp hc with rfl | hc
            · decide
            · exact ih (fun u hu => h u (List.mem_cons_of_mem w hu)) c hc

/-- The class of a view is named by one identifier. -/
theorem isIdent_className (path : String) : isIdent (className path).toList = true := by
  have hview : isIdent "View_".toList = true := by decide
  have hstem := Text.isIdent_append hview (isIdentRest_of_mem_classStem (p := path.toList))
  rw [className]
  split
  · rw [String.toList_ofList]
    exact hstem
  · rw [String.toList_ofList]
    have hbars : ['_', '_'].all Text.isIdentRest = true := rfl
    refine Text.isIdent_append (Text.isIdent_append hstem (List.all_eq_true.mp hbars)) ?_
    refine isIdentRest_of_mem_intercalate fun w hw => ?_
    obtain ⟨d, -, rfl⟩ := List.mem_map.mp hw
    exact isIdentRest_of_mem_hexOfNat d.toNat

end ViewPress.Template
