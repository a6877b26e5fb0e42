import ViewPress.Proofs.Pipeline
import ViewPress.Proofs.UnitOrder
import ViewPress.Proofs.ViewPaths

/-!
# What a fingerprint tells

Two builds of a project are compared by the fingerprints of their modules. A fingerprint
is the digest of the pairs of view path and type name, sorted, with a zero byte behind
each path and each name. A digest tells its inputs apart as well as any digest can, so the
question is what the input tells. It tells the pairs with their multiplicities, and
nothing else about the module.

Sorting is what makes the order of the types irrelevant. The zero bytes are what makes
the pairs readable: a text without the zero character has no zero byte, so each path and
each name ends at the first one. The paths of files have no zero character, and the
names of their classes are identifiers.
-/

namespace ViewPress

namespace Text

/-- Only the zero character has a zero byte. -/
theorem zero_notMem_utf8 {s : String} (h : '\x00' ∉ s.toList) : 0 ∉ utf8 s := by
  rw [utf8_eq, List.mem_flatMap]
  rintro ⟨c, hc, hzero⟩
  by_cases hascii : c.toNat < 0x80
  · rw [utf8EncodeChar_of_lt hascii, List.mem_singleton] at hzero
    have hnat := congrArg UInt8.toNat hzero
    rw [Nat.toUInt8, UInt8.toNat_ofNat_of_lt' (Nat.lt_trans hascii (by decide))] at hnat
    obtain rfl : '\x00' = c := Char.toNat_inj.mp hnat
    exact h hc
  · exact absurd (le_of_mem_utf8EncodeChar (Nat.le_of_not_lt hascii) hzero) (by decide)

/-- What ends at the first zero byte is known from the bytes up to there. -/
theorem append_zero_inj {as bs rest rest' : List UInt8} (has : 0 ∉ as) (hbs : 0 ∉ bs)
    (h : as ++ 0 :: rest = bs ++ 0 :: rest') : as = bs ∧ rest = rest' := by
  induction as generalizing bs with
  | nil =>
      cases bs with
      | nil => exact ⟨rfl, (List.cons.inj h).2⟩
      | cons b bs => exact absurd ((List.cons.inj h).1 ▸ List.mem_cons_self) hbs
  | cons a as ih =>
      cases bs with
      | nil => exact absurd ((List.cons.inj h).1 ▸ List.mem_cons_self) has
      | cons b bs =>
          obtain ⟨rfl, htail⟩ := List.cons.inj h
          obtain ⟨rfl, hrest⟩ := ih (fun ha => has (List.mem_cons_of_mem a ha))
            (fun hb => hbs (List.mem_cons_of_mem a hb)) htail
          exact ⟨rfl, hrest⟩

end Text

namespace Module

/-! ## Pairs in bytes -/

/-- A pair without the zero character. -/
def ZeroFree (p : String × String) : Prop :=
  '\x00' ∉ p.1.toList ∧ '\x00' ∉ p.2.toList

/-- No view path and no name of a tagged type has the zero character. -/
def ZeroFreeTags (m : Module) : Prop :=
  ∀ p ∈ m.pairs, ZeroFree p

instance (p : String × String) : Decidable (ZeroFree p) :=
  inferInstanceAs (Decidable (_ ∧ _))

instance (m : Module) : Decidable m.ZeroFreeTags :=
  inferInstanceAs (Decidable (∀ p ∈ m.pairs, ZeroFree p))

/-- The bytes of a pair. -/
def pairBytes (p : String × String) : List UInt8 :=
  Text.utf8 p.1 ++ 0 :: Text.utf8 p.2 ++ [0]

/-- A pair is read off the bytes that start with it. -/
theorem pairBytes_append_inj {p q : String × String} (hp : ZeroFree p) (hq : ZeroFree q)
    {rest rest' : List UInt8} (h : pairBytes p ++ rest = pairBytes q ++ rest') :
    p = q ∧ rest = rest' := by
  simp only [pairBytes, List.append_assoc, List.cons_append, List.nil_append] at h
  obtain ⟨hpath, h⟩ := Text.append_zero_inj (Text.zero_notMem_utf8 hp.1)
    (Text.zero_notMem_utf8 hq.1) h
  obtain ⟨hname, hrest⟩ := Text.append_zero_inj (Text.zero_notMem_utf8 hp.2)
    (Text.zero_notMem_utf8 hq.2) h
  exact ⟨Prod.ext (Text.utf8_injective hpath) (Text.utf8_injective hname), hrest⟩

theorem pairBytes_ne_nil (p : String × String) : pairBytes p ≠ [] :=
  List.append_ne_nil_of_right_ne_nil _ (List.cons_ne_nil _ _)

/-- So is a whole list of pairs. -/
theorem flatMap_pairBytes_inj {ps qs : List (String × String)} (hps : ∀ p ∈ ps, ZeroFree p)
    (hqs : ∀ q ∈ qs, ZeroFree q) (h : ps.flatMap pairBytes = qs.flatMap pairBytes) : ps = qs := by
  induction ps generalizing qs with
  | nil =>
      cases qs with
      | nil => rfl
      | cons q qs =>
          rw [List.flatMap_nil, List.flatMap_cons, eq_comm, List.append_eq_nil_iff] at h
          exact absurd h.1 (pairBytes_ne_nil q)
  | cons p ps ih =>
      obtain ⟨hp, hps'⟩ := List.forall_mem_cons.mp hps
      cases qs with
      | nil =>
          rw [List.flatMap_nil, List.flatMap_cons, List.append_eq_nil_iff] at h
          exact absurd h.1 (pairBytes_ne_nil p)
      | cons q qs =>
          obtain ⟨hq, hqs'⟩ := List.forall_mem_cons.mp hqs
          rw [List.flatMap_cons, List.flatMap_cons] at h
          obtain ⟨rfl, hrest⟩ := pairBytes_append_inj hp hq h
          rw [ih hps' hqs' hrest]

theorem fingerprintInput_eq_iff {m m' : Module} (hm : m.ZeroFreeTags) (hm' : m'.ZeroFreeTags) :
    m.fingerprintInput = m'.fingerprintInput ↔ m.pairs.Perm m'.pairs := by
  have hsorted {m : Module} (hm : m.ZeroFreeTags) : ∀ p ∈ m.tagPairs, ZeroFree p :=
    fun p hp => hm p ((tagPairs_perm_pairs m).mem_iff.mp hp)
  rw [← tagPairs_eq_iff]
  constructor
  · exact flatMap_pairBytes_inj (hsorted hm) (hsorted hm')
  · intro h
    rw [fingerprintInput, fingerprintInput, h]

/-! ## What does not matter -/

/-- The tagged types without their bases and bodies. -/
def bareTagged (m : Module) : List TypeDef :=
  (m.types.filter (·.viewPath?.isSome)).map fun t => { t with bases := [], body := [] }

theorem pairs_eq_filterMap_bareTagged (m : Module) :
    m.pairs = m.bareTagged.filterMap fun t => t.viewPath?.map fun path => (path, t.name) := by
  rw [pairs, taggedTypes, bareTagged, List.map_filterMap, List.filterMap_map,
    List.filterMap_filter]
  congr 1
  funext t
  show (t.viewPath?.map fun path => (path, t)).map (fun t => (t.1, t.2.name))
    = if t.viewPath?.isSome then t.viewPath?.map (fun path => (path, t.name)) else none
  cases t.viewPath? <;> rfl

/-! ## Modules of templates -/

theorem zeroFree_of_path {path : String} (h : '\x00' ∉ path.toList) :
    ZeroFree (path, Template.className path) := by
  refine ⟨h, fun hzero => ?_⟩
  have hrest := Source.isIdentRest_of_isIdent (Template.isIdent_className path) _ hzero
  exact absurd hrest (by decide)

/-- The modules of templates at paths without the zero character have such tags. -/
theorem zeroFreeTags_of_compileUnits {application name : String}
    {files : List (String × List UInt8)} {references : List (Except Diagnostic Module)}
    {compiled : Compiled}
    (hsuccess : ∀ f ∈ files, (GeneratedUnit.ofBytes application f.1 f.2).success = true)
    (hpaths : ∀ f ∈ files, '\x00' ∉ f.1.toList)
    (hcompile : compileUnits name
      (files.map fun f => GeneratedUnit.ofBytes application f.1 f.2) references = .ok compiled) :
    compiled.module.ZeroFreeTags := by
  obtain ⟨c, hunits, hyields⟩ := exists_yields_of_compileUnits_eq hcompile
  have htypes := (List.forall₂_and_left _ _).mpr ⟨hpaths, forall₂_types_tagged hsuccess hunits⟩
  intro p hp
  obtain ⟨⟨path, type⟩, htagged, rfl⟩ := List.mem_map.mp hp
  rw [hyields.module, taggedTypes, List.mem_filterMap] at htagged
  obtain ⟨type', htype, hviewPath⟩ := htagged
  obtain ⟨path', hpath, heq⟩ := Option.map_eq_some_iff.mp hviewPath
  cases heq
  obtain ⟨f, -, hf, t, -, rfl⟩ := exists_of_forall₂ htypes.flip htype
  -- The only path a type of a template can be tagged with is the path of the template.
  split at hpath
  · cases hpath
    exact zeroFree_of_path hf
  · cases hpath

/-- A class with the path of its view. -/
def viewClass (path name : String) (bases : List String) : TypeDef where
  name
  kind := .classType
  bases
  attributes := [{ name := viewPathAttribute, args := [path] }]

end Module

end ViewPress
