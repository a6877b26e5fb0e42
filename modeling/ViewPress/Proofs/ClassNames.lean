import ViewPress.Proofs.Lexing
import ViewPress.Proofs.Names

/-!
# Different templates, different classes

The name of a class can be read back. Every hidden character leaves one underscore in
the stem, and the code points behind the stem bring two underscores more than there are
gaps between them, so the number of underscores in a name tells how many characters its
path hides. That fixes where the stem ends, although a path may hold underscores and
digits of its own. What follows is cut at the underscores into code points, which
are put back where the stem has an underscore.

A name is also one lexeme of the view language, so a class declared under it is the
class that is asked for.
-/

namespace ViewPress.Text

/-! ## Hexadecimal digits -/

theorem hexOfNat_eq (n : Nat) :
    hexOfNat n = (if n < 16 then [] else hexOfNat (n / 16)) ++ [(n % 16).digitChar] := by
  rw [hexOfNat, Nat.toDigits_eq_if (by decide)]
  split
  · next hn => rw [Nat.mod_eq_of_lt hn, List.nil_append]
  · rfl

theorem hexOfNat_ne_nil (n : Nat) : hexOfNat n ≠ [] := by
  rw [hexOfNat_eq]
  exact List.append_ne_nil_of_right_ne_nil _ (List.cons_ne_nil _ _)

theorem digitChar_inj {m n : Nat} (hm : m < 16) (hn : n < 16) (h : m.digitChar = n.digitChar) :
    m = n := by
  have hdigits : ∀ m < 16, ∀ n < 16, m.digitChar = n.digitChar → m = n := by decide
  exact hdigits m hm n hn h

theorem underscore_notMem_hexOfNat (n : Nat) : '_' ∉ hexOfNat n := by
  have hdigit : ∀ d < 16, '_' ≠ d.digitChar := by decide
  induction n using Nat.strongRecOn with
  | _ n ih =>
      rw [hexOfNat_eq, List.mem_append, List.mem_singleton, not_or]
      refine ⟨?_, hdigit _ (Nat.mod_lt n (by decide))⟩
      split
      · exact List.not_mem_nil
      · exact ih (n / 16) (by omega)

/-- The digits of a number belong to no other. -/
theorem hexOfNat_inj {m n : Nat} (h : hexOfNat m = hexOfNat n) : m = n := by
  induction m using Nat.strongRecOn generalizing n with
  | _ m ih =>
      rw [hexOfNat_eq m, hexOfNat_eq n] at h
      obtain ⟨hfront, hlast⟩ := List.append_inj' h rfl
      have hmod : m % 16 = n % 16 :=
        digitChar_inj (Nat.mod_lt m (by decide)) (Nat.mod_lt n (by decide))
          (List.cons.inj hlast).1
      split at hfront
      · split at hfront
        · omega
        · exact absurd hfront.symm (hexOfNat_ne_nil _)
      · split at hfront
        · exact absurd hfront (hexOfNat_ne_nil _)
        · have hdiv : m / 16 = n / 16 := ih (m / 16) (by omega) hfront
          omega

end ViewPress.Text

namespace ViewPress.Template

/-! ## Counting underscores -/

theorem count_classStem (path : List Char) :
    (classStem path).count '_' = (hiddenCodePoints path).length := by
  rw [hiddenCodePoints, List.length_map, ← List.countP_eq_length_filter, classStem,
    List.count_eq_countP, List.countP_map]
  refine List.countP_congr fun c _ => ?_
  by_cases hc : c.isAlphanum = true
  · have hne : c ≠ '_' := by
      rintro rfl
      exact absurd hc (by decide)
    simp [hc, hne]
  · simp [hc]

theorem count_intercalate {x : Char} {words : List (List Char)} (hne : words ≠ [])
    (hwords : ∀ w ∈ words, x ∉ w) :
    ([x].intercalate words).count x + 1 = words.length := by
  induction words with
  | nil => exact absurd rfl hne
  | cons w words ih =>
      obtain ⟨hw, hwords⟩ := List.forall_mem_cons.mp hwords
      cases words with
      | nil => rw [List.intercalate_singleton, List.count_eq_zero.mpr hw, List.length_singleton]
      | cons v vs =>
          have hrest := ih (List.cons_ne_nil v vs) hwords
          rw [List.intercalate_cons_cons, List.append_assoc, List.count_append,
            List.count_eq_zero.mpr hw, List.singleton_append, List.count_cons_self, hrest,
            Nat.zero_add]
          rfl

theorem underscore_notMem_hidden (path : List Char) : ∀ w ∈ hiddenCodePoints path, '_' ∉ w := by
  intro w hw
  obtain ⟨c, -, rfl⟩ := List.mem_map.mp hw
  exact Text.underscore_notMem_hexOfNat c.toNat

/-- The name of a path that hides something: the stem and the code points, apart. -/
theorem toList_className_of_hidden {path : String} (h : hiddenCodePoints path.toList ≠ []) :
    (className path).toList = "View_".toList
      ++ (classStem path.toList
        ++ '_' :: '_' :: ['_'].intercalate (hiddenCodePoints path.toList)) := by
  rw [className]
  split
  · next hnone => exact absurd hnone h
  · rw [String.toList_ofList, List.append_assoc, List.append_assoc]
    rfl

theorem toList_className_of_plain {path : String} (h : hiddenCodePoints path.toList = []) :
    (className path).toList = "View_".toList ++ classStem path.toList := by
  rw [className, h]
  exact String.toList_ofList

/-- How many characters a path hides can be told from the underscores of its name. -/
theorem count_className (path : String) :
    (className path).toList.count '_' =
      if hiddenCodePoints path.toList = [] then 1
      else 2 * (hiddenCodePoints path.toList).length + 2 := by
  have hview : "View_".toList.count '_' = 1 := by decide
  have hstem := count_classStem path.toList
  split
  · next hnone =>
      rw [hnone, List.length_nil] at hstem
      rw [toList_className_of_plain hnone, List.count_append, hview, hstem]
  · next hsome =>
      have hsuffix := count_intercalate hsome (underscore_notMem_hidden path.toList)
      rw [toList_className_of_hidden hsome, List.count_append, List.count_append, hview, hstem,
        List.count_cons_self, List.count_cons_self]
      omega

theorem length_hidden_of_className_eq {p q : String} (h : className p = className q) :
    (hiddenCodePoints p.toList).length = (hiddenCodePoints q.toList).length := by
  have hcount := congrArg (fun name : String => name.toList.count '_') h
  simp only [count_className] at hcount
  split at hcount <;> split at hcount
  · next hp hq => rw [hp, hq]
  · omega
  · omega
  · omega

/-! ## Reading a name back -/

/-- A list is cut at the same place by marks of the same number. -/
theorem append_cons_inj_of_count {x : Char} {as bs cs ds : List Char}
    (hcount : as.count x = bs.count x) (h : as ++ x :: cs = bs ++ x :: ds) :
    as = bs ∧ cs = ds := by
  induction as generalizing bs with
  | nil =>
      cases bs with
      | nil => exact ⟨rfl, (List.cons.inj h).2⟩
      | cons b bs =>
          rw [List.nil_append, List.cons_append] at h
          rw [← (List.cons.inj h).1, List.count_nil, List.count_cons_self] at hcount
          omega
  | cons a as ih =>
      cases bs with
      | nil =>
          rw [List.nil_append, List.cons_append] at h
          rw [(List.cons.inj h).1, List.count_nil, List.count_cons_self] at hcount
          omega
      | cons b bs =>
          rw [List.cons_append, List.cons_append] at h
          obtain ⟨rfl, htail⟩ := List.cons.inj h
          rw [List.count_cons, List.count_cons, Nat.add_right_cancel_iff] at hcount
          obtain ⟨rfl, rfl⟩ := ih hcount htail
          exact ⟨rfl, rfl⟩

theorem filter_eq_of_hiddenCodePoints_eq {p q : List Char}
    (h : hiddenCodePoints p = hiddenCodePoints q) :
    (p.filter fun c => !c.isAlphanum) = q.filter fun c => !c.isAlphanum := by
  refine List.map_inj_right (fun c d hcd => ?_) |>.mp h
  exact Char.toNat_inj.mp (Text.hexOfNat_inj hcd)

/-- A path is known from its stem and the characters that the stem hides. -/
theorem eq_of_classStem_eq {p q : List Char} (hstem : classStem p = classStem q)
    (hhidden : (p.filter fun c => !c.isAlphanum) = q.filter fun c => !c.isAlphanum) : p = q := by
  have hmark : ('_').isAlphanum = false := by decide
  induction p generalizing q with
  | nil => exact (List.map_eq_nil_iff.mp hstem.symm).symm
  | cons c p ih =>
      cases q with
      | nil => cases hstem
      | cons d q =>
          rw [classStem, classStem, List.map_cons, List.map_cons] at hstem
          obtain ⟨hhead, htail⟩ := List.cons.inj hstem
          by_cases hc : c.isAlphanum = true <;> by_cases hd : d.isAlphanum = true
          · rw [if_pos hc, if_pos hd] at hhead
            rw [List.filter_cons_of_neg (by simp [hc]), List.filter_cons_of_neg (by simp [hd])]
              at hhidden
            rw [hhead, ih htail hhidden]
          -- an underscore in the stem is no letter of the path
          · rw [if_pos hc, if_neg hd] at hhead
            rw [hhead, hmark] at hc
            cases hc
          · rw [if_neg hc, if_pos hd] at hhead
            rw [← hhead, hmark] at hd
            cases hd
          · rw [List.filter_cons_of_pos (by simp [hc]), List.filter_cons_of_pos (by simp [hd])]
              at hhidden
            obtain ⟨rfl, hrest⟩ := List.cons.inj hhidden
            rw [ih htail hrest]

/-- The stem and the code points can both be read off a name. -/
theorem parts_of_className_eq {p q : String} (h : className p = className q) :
    classStem p.toList = classStem q.toList ∧
      hiddenCodePoints p.toList = hiddenCodePoints q.toList := by
  have hlength := length_hidden_of_className_eq h
  have hname := congrArg String.toList h
  by_cases hp : hiddenCodePoints p.toList = []
  · have hq : hiddenCodePoints q.toList = [] := by
      rw [← List.length_eq_zero_iff, ← hlength, hp, List.length_nil]
    rw [toList_className_of_plain hp, toList_className_of_plain hq] at hname
    exact ⟨List.append_cancel_left hname, hp.trans hq.symm⟩
  · have hq : hiddenCodePoints q.toList ≠ [] := by
      intro hq
      rw [hq, List.length_nil, List.length_eq_zero_iff] at hlength
      exact hp hlength
    rw [toList_className_of_hidden hp, toList_className_of_hidden hq] at hname
    have hcount : (classStem p.toList).count '_' = (classStem q.toList).count '_' := by
      rw [count_classStem, count_classStem, hlength]
    obtain ⟨hstem, hsuffix⟩ := append_cons_inj_of_count hcount (List.append_cancel_left hname)
    refine ⟨hstem, ?_⟩
    calc
      hiddenCodePoints p.toList
      _ = Text.splitOn (· == '_') (['_'].intercalate (hiddenCodePoints p.toList)) :=
          (Text.splitOn_intercalate '_' hp (underscore_notMem_hidden _)).symm
      _ = Text.splitOn (· == '_') (['_'].intercalate (hiddenCodePoints q.toList)) := by
          rw [(List.cons.inj hsuffix).2]
      _ = hiddenCodePoints q.toList :=
          Text.splitOn_intercalate '_' hq (underscore_notMem_hidden _)

/-- No two paths have the same class name. -/
theorem className_injective : Function.Injective className := by
  intro p q h
  obtain ⟨hstem, hhidden⟩ := parts_of_className_eq h
  exact String.toList_inj.mp
    (eq_of_classStem_eq hstem (filter_eq_of_hiddenCodePoints_eq hhidden))

-- a path that spells out what another one hides has underscores of its own to account for
example : className "a/" = "View_a___2f" ∧ className "a___2f" = "View_a___2f__5f_5f_5f" := by
  decide +kernel

end ViewPress.Template

namespace ViewPress.Source

open Text (isIdent isIdentStart isIdentRest)

theorem not_isDigit_of_isIdentStart {c : Char} (h : isIdentStart c = true) :
    c.isDigit = false := by
  have halpha : c.isAlpha = (c.isUpper || c.isLower) := rfl
  have hupper : c.isUpper = decide ('A'.val ≤ c.val ∧ c.val ≤ 'Z'.val) := rfl
  have hlower : c.isLower = (decide ('a'.val ≤ c.val) && decide (c.val ≤ 'z'.val)) := rfl
  rw [← Bool.not_eq_true]
  intro hdigit
  simp only [isIdentStart, halpha, hupper, hlower, Char.isDigit,
    Bool.or_eq_true, Bool.and_eq_true, decide_eq_true_eq, beq_iff_eq, UInt32.le_iff_toNat_le,
    ge_iff_le, Char.toNat_val, Char.reduceToNat] at h hdigit
  rcases h with (h | h) | rfl
  · omega
  · omega
  · exact absurd hdigit (by decide)

theorem not_isDigit_of_isIdent {name : List Char} (h : isIdent name = true) {c : Char}
    (hc : c ∈ name.head?) : c.isDigit = false := by
  cases name with
  | nil => cases h
  | cons d name =>
      cases hc
      rw [isIdent, Bool.and_eq_true] at h
      exact not_isDigit_of_isIdentStart h.1

/-- An identifier alone is one lexeme, as long as the text. -/
theorem lex_of_isIdent {name : List Char} (h : isIdent name = true) (pos : Nat) :
    TokenStream.lex pos name =
      { lexemes :=
          [{ token := .ident (String.ofList name), span := { start := pos, len := name.length } }],
        ending := .eof (pos + name.length) } := by
  cases name with
  | nil => cases h
  | cons c name =>
      rw [isIdent, Bool.and_eq_true, List.all_eq_true] at h
      obtain ⟨hblank, hslash⟩ := not_blank_of_isIdentRest (isIdentRest_of_isIdentStart h.1)
      have hend : front (pos + (c :: name).length) [] = .ending (.eof (pos + (c :: name).length)) :=
        rfl
      have hnil : WordEnds [] := by simp [WordEnds]
      obtain ⟨htake, hdrop⟩ := takeWhile_append_of_wordEnds h.2 hnil
      rw [List.append_nil] at htake hdrop
      have hfront : front pos (c :: name) = .lexeme
          { token := .ident (String.ofList (c :: name)),
            span := { start := pos, len := (c :: name).length } }
          (pos + (c :: name).length) [] := by
        rw [front_eq_scanLexeme hblank hslash]
        simp only [scanLexeme, h.1, if_true, htake, hdrop]
      rw [lex_of_lexeme hfront, lex_of_ending hend]
      rfl

end ViewPress.Source

namespace ViewPress.Template

open Source (isIdentRest_of_isIdent not_isDigit_of_isIdent)

/-- No two paths have the same class name, and every class name is read as one identifier:
letters, digits and underscores, without a digit in front. -/
theorem className_collision_free :
    (∀ p q, className p = className q → p = q) ∧
      ∀ path,
        (∀ c ∈ (className path).toList, c.isAlphanum = true ∨ c = '_') ∧
        (∀ c ∈ (className path).toList.head?, c.isDigit = false) ∧
        Source.TokenStream.ofSource (className path) =
          { lexemes :=
              [{ token := .ident (className path),
                 span := { start := 0, len := (className path).length } }],
            ending := .eof (className path).length } := by
  refine ⟨fun p q h => className_injective h, fun path => ?_⟩
  have hident := isIdent_className path
  refine ⟨?_, ?_, ?_⟩
  · intro c hc
    simpa [Text.isIdentRest] using isIdentRest_of_isIdent hident c hc
  · exact fun c hc => not_isDigit_of_isIdent hident hc
  · rw [Source.TokenStream.ofSource, Source.lex_of_isIdent hident, String.ofList_toList,
      Nat.zero_add, String.length_toList]

end ViewPress.Template
