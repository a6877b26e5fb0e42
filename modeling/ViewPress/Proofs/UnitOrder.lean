import Mathlib.Data.List.Nodup
import Mathlib.Data.List.Perm.Basic
import ViewPress.Proofs.Tags
import ViewPress.Proofs.WellFormed

/-!
# Compiling units in any order

The stages of a compilation all go through its trees in order, and what they say when
something is wrong depends on it. Whether anything is wrong does not, and neither does
what is compiled, but for the order of its types.

For the checks that is so because a well-formed compilation has one declaration for each
name at most. Whichever comes first, every name has the same kind and bases, and the
symbol table is used for nothing else. For emission it is so because a key that is taken
twice is found whichever page comes second.
-/

namespace ViewPress

open Source (Declaration Tree)
open ViewPath (lookupKey)

/-! ## Symbol tables that agree -/

/-- What a symbol says about the type it names, which is all but where it comes from. -/
def Symbol.meaning (s : Symbol) : String × TypeKind × List String :=
  (s.name, s.kind, s.bases)

/-- Tables in which every name means the same. -/
def Symbols.Agree (symbols symbols' : Symbols) : Prop :=
  ∀ name, (symbols.find? name).map Symbol.meaning = (symbols'.find? name).map Symbol.meaning

namespace Symbols.Agree

variable {symbols symbols' : Symbols} (h : symbols.Agree symbols')
include h

theorem symm : symbols'.Agree symbols :=
  fun name => (h name).symm

theorem exists_find? {name : String} {s : Symbol} (hs : symbols.find? name = some s) :
    ∃ s', symbols'.find? name = some s' ∧ s'.kind = s.kind ∧ s'.bases = s.bases := by
  have hname := h name
  rw [hs, Option.map_some] at hname
  obtain ⟨s', hs', hmeaning⟩ := Option.map_eq_some_iff.mp hname.symm
  obtain ⟨-, hrest⟩ := Prod.mk.inj hmeaning
  obtain ⟨hkind, hbases⟩ := Prod.mk.inj hrest
  exact ⟨s', hs', hkind, hbases⟩

theorem hasBase {name base : String} (hbase : symbols.HasBase name base) :
    symbols'.HasBase name base := by
  obtain ⟨s, hs, hmem⟩ := hbase
  obtain ⟨s', hs', -, hbases⟩ := h.exists_find? hs
  exact ⟨s', hs', hbases ▸ hmem⟩

theorem hasBase_eq : symbols.HasBase = symbols'.HasBase := by
  funext name base
  exact propext ⟨h.hasBase, h.symm.hasBase⟩

theorem derives_iff {name marker : String} :
    symbols.Derives name marker ↔ symbols'.Derives name marker := by
  rw [Derives, Derives, h.hasBase_eq]

theorem implements_eq (name marker : String) :
    symbols.implements name marker = symbols'.implements name marker := by
  rw [Bool.eq_iff_iff, implements_iff, implements_iff, h.derives_iff]

theorem isPage_eq : symbols.isPage = symbols'.isPage := by
  funext d
  rw [isPage, isPage, h.implements_eq]

theorem isPageClass_eq : symbols.isPageClass = symbols'.isPageClass := by
  have hkind (name : String) : (symbols.find? name).any (·.kind == .classType)
      = (symbols'.find? name).any (·.kind == .classType) := by
    have hmap := congrArg (Option.any (·.2.1 == TypeKind.classType)) (h name)
    simpa [Option.any_map, Symbol.meaning] using hmap
  funext d
  simp only [isPageClass, baseImplements, hkind, h.implements_eq]

theorem tagTree_eq : tagTree symbols = tagTree symbols' := by
  funext tree
  rw [tagTree, tagTree, h.isPageClass_eq]

theorem accepts {d : Declaration} (hd : symbols.Accepts d) : symbols'.Accepts d := by
  refine ⟨fun b hb hnone => ?_, ?_, fun a ha => ?_, hd.scope⟩
  · obtain ⟨s, hs⟩ := Option.ne_none_iff_exists'.mp (hd.bases b hb)
    obtain ⟨s', hs', -⟩ := h.exists_find? hs
    rw [hnone] at hs'
    cases hs'
  · rw [Cyclic, ← h.hasBase_eq]
    exact hd.acyclic
  · obtain ⟨s, hs, hkind⟩ := hd.attributes a ha
    obtain ⟨s', hs', hkind', -⟩ := h.exists_find? hs
    exact ⟨s', hs', hkind'.trans hkind⟩

end Symbols.Agree

/-! ## Checks -/

/-- What is found by a key does not depend on the order if no key occurs twice. -/
theorem find?_eq_of_perm {α : Type} {key : α → String} {as bs : List α} (h : as.Perm bs)
    (hnodup : (as.map key).Nodup) (k : String) :
    as.find? (key · == k) = bs.find? (key · == k) := by
  have hfound {l : List α} (hl : l.Perm as) {a : α} (ha : a ∈ l) (hk : key a = k) :
      l.find? (key · == k) = some a := by
    obtain ⟨b, hb⟩ : ∃ b, l.find? (key · == k) = some b := by
      rw [← Option.isSome_iff_exists, List.find?_isSome]
      exact ⟨a, ha, by simpa using hk⟩
    have hkey : key b = k := by simpa using List.find?_some hb
    have hmem := List.mem_of_find?_eq_some hb
    rw [hb, List.inj_on_of_nodup_map hnodup (hl.subset hmem) (hl.subset ha) (hkey.trans hk.symm)]
  cases has : as.find? (key · == k) with
  | some a =>
      have hk : key a = k := by simpa using List.find?_some has
      exact (hfound h.symm (h.subset (List.mem_of_find?_eq_some has)) hk).symm
  | none =>
      rw [List.find?_eq_none] at has
      exact (List.find?_eq_none.mpr fun b hb => has b (h.symm.subset hb)).symm

namespace Compilation

/-- Compilations that differ in the order of their trees only. -/
structure Reordered (c c' : Compilation) : Prop where
  trees : c.trees.Perm c'.trees
  references : c.references = c'.references

/-- What a declaration says about the type that it declares. -/
def meaning (d : Declaration) : String × TypeKind × List String :=
  (d.name, d.kind.typeKind, d.bases.map Source.BaseRef.name)

theorem map_meaning_declaredSymbols (c : Compilation) :
    c.declaredSymbols.map Symbol.meaning = c.declared.map meaning := by
  rw [declaredSymbols, List.map_map, ← map_declarations, List.map_map]
  rfl

theorem map_find?_declaredSymbols (c : Compilation) (name : String) :
    (c.declaredSymbols.find? name).map Symbol.meaning
      = (c.declared.map meaning).find? (·.1 == name) := by
  rw [← map_meaning_declaredSymbols, List.find?_map]
  rfl

namespace Reordered

variable {c c' : Compilation} (h : c.Reordered c')
include h

theorem symm : c'.Reordered c :=
  ⟨h.trees.symm, h.references.symm⟩

theorem declared : c.declared.Perm c'.declared :=
  h.trees.flatMap_right Tree.types

theorem agree (hnodup : (c.declared.map Declaration.name).Nodup) :
    c.symbols.Agree c'.symbols := by
  intro name
  have hreferences : c.referenceSymbols = c'.referenceSymbols := by
    rw [referenceSymbols, referenceSymbols, h.references]
  have hdeclared : (c.declaredSymbols.find? name).map Symbol.meaning
      = (c'.declaredSymbols.find? name).map Symbol.meaning := by
    rw [map_find?_declaredSymbols, map_find?_declaredSymbols]
    exact find?_eq_of_perm (h.declared.map meaning) (by rwa [List.map_map]) name
  rw [symbols, symbols, hreferences]
  simp only [Symbols.find?, List.find?_append, Option.map_or] at hdeclared ⊢
  rw [hdeclared]

theorem wellFormed (hc : c.WellFormed) : c'.WellFormed := by
  refine ⟨(h.declared.map Declaration.name).nodup_iff.mp hc.nodup, fun d hd => ?_, fun d hd => ?_⟩
  · rw [Exports, ← h.references]
    exact hc.unexported d (h.declared.symm.subset hd)
  · exact (h.agree hc.nodup).accepts (hc.accepts d (h.declared.symm.subset hd))

theorem tagged (hc : c.WellFormed) : c.tagged.Reordered c'.tagged := by
  refine ⟨?_, h.references⟩
  rw [Compilation.tagged, Compilation.tagged, (h.agree hc.nodup).tagTree_eq]
  exact h.trees.map _

end Reordered

end Compilation

/-! ## Emission -/

/-- The tags of a page are in order: there are none, or there is one with one path. -/
def Source.Declaration.WellTagged (d : Declaration) : Prop :=
  match d.tags with
  | [] => True
  | [tag] => tag.args.length = 1
  | _ => False

/-- The tags of a tree are in order: those of each page are, and one page has a tag. -/
structure Symbols.WellTagged (symbols : Symbols) (tree : Tree) : Prop where
  pages : ∀ d ∈ tree.types.filter symbols.isPage, d.WellTagged
  view : tree.types.filter symbols.isPage ≠ [] →
    ∃ d ∈ tree.types.filter symbols.isPage, d.tags ≠ []

namespace Owners

variable {owners : Owners} {symbols : Symbols}

theorem page_eq_nil_iff {d : Declaration} :
    (owners.page d).2 = [] ↔ d.WellTagged ∧ ∀ key ∈ d.key?.toList, key ∉ owners.map Prod.fst := by
  rw [page, Declaration.WellTagged, key?_eq_head?_tags]
  rcases d.tags with _ | ⟨tag, _ | ⟨other, rest⟩⟩
  · simp
  · rcases hargs : tag.args with _ | ⟨path, _ | ⟨other, rest⟩⟩
    · simp [hargs]
    · simp only [List.head?_cons, Option.bind_some, hargs, Option.map_some, Option.toList_some,
        List.forall_mem_singleton, ← lookup_eq_none_iff_notMem]
      cases owners.lookup (lookupKey path) <;> simp
    · simp [hargs]
  · simp

/-- Nothing is wrong with pages if and only if their tags are in order and their keys are
free and all different. -/
theorem pages_eq_nil_iff {ds : List Declaration} (hnodup : (owners.map Prod.fst).Nodup) :
    (owners.pages ds).2 = [] ↔
      (∀ d ∈ ds, d.WellTagged) ∧ (ds.filterMap Declaration.key? ++ owners.map Prod.fst).Nodup := by
  induction ds generalizing owners with
  | nil => simp [pages, hnodup]
  | cons d rest ih =>
      have hsplit : (owners.pages (d :: rest)).2 = [] ↔
          (owners.page d).2 = [] ∧ ((owners.page d).1.pages rest).2 = [] := by
        rw [pages, List.append_eq_nil_iff, List.map_eq_nil_iff]
      have hkeys : ((d :: rest).filterMap Declaration.key? ++ owners.map Prod.fst).Perm
          (rest.filterMap Declaration.key? ++ (d.key?.toList ++ owners.map Prod.fst)) := by
        have hcons : (d :: rest).filterMap Declaration.key?
            = d.key?.toList ++ rest.filterMap Declaration.key? := by
          rw [List.filterMap_cons]
          cases d.key? <;> rfl
        rw [hcons, List.append_assoc]
        exact List.perm_append_comm_assoc _ _ _
      rw [hsplit, hkeys.nodup_iff, List.forall_mem_cons]
      constructor
      · rintro ⟨hd, hrest⟩
        obtain ⟨htaken, hnodup⟩ := page_eq_nil hnodup hd
        obtain ⟨htagged, hrest⟩ := (ih hnodup).mp hrest
        exact ⟨⟨(page_eq_nil_iff.mp hd).1, htagged⟩, htaken ▸ hrest⟩
      · rintro ⟨⟨hd, htagged⟩, hall⟩
        obtain ⟨-, hfree, -⟩ := List.nodup_append'.mp hall
        have hpage : (owners.page d).2 = [] :=
          page_eq_nil_iff.mpr ⟨hd, fun key hkey => List.disjoint_of_nodup_append hfree hkey⟩
        obtain ⟨htaken, hnodup⟩ := page_eq_nil hnodup hpage
        exact ⟨hpage, (ih hnodup).mpr ⟨htagged, htaken ▸ hall⟩⟩

theorem tree_eq_nil_iff {tree : Tree} (hnodup : (owners.map Prod.fst).Nodup) :
    (owners.tree symbols tree).2 = [] ↔ symbols.WellTagged tree ∧
      ((tree.types.filter symbols.isPage).filterMap Declaration.key?
        ++ owners.map Prod.fst).Nodup := by
  have hview : (owners.tree symbols tree).2 = [] ↔
      (owners.pages (tree.types.filter symbols.isPage)).2 = [] ∧
        (tree.types.filter symbols.isPage ≠ [] →
          ∃ d ∈ tree.types.filter symbols.isPage, d.tags ≠ []) := by
    simp only [Owners.tree]
    cases hpages : tree.types.filter symbols.isPage with
    | nil => simp
    | cons first rest =>
        have hall : (first :: rest).all (·.tags.isEmpty) = true ↔
            ¬ ∃ d ∈ first :: rest, d.tags ≠ [] := by
          simp only [List.all_eq_true, List.isEmpty_iff, not_exists, not_and, ne_eq, not_not]
        simp only [ne_eq, reduceCtorEq, not_false_iff, true_implies]
        split
        · next huntagged =>
            refine ⟨fun h => ?_, fun h => absurd h.2 (hall.mp huntagged)⟩
            cases (List.append_eq_nil_iff.mp h).2
        · next htagged =>
            refine ⟨fun h => ⟨h, ?_⟩, And.left⟩
            by_contra hnone
            exact htagged (hall.mpr hnone)
  rw [hview, pages_eq_nil_iff hnodup]
  constructor
  · rintro ⟨⟨hpages, hkeys⟩, hview⟩
    exact ⟨⟨hpages, hview⟩, hkeys⟩
  · rintro ⟨⟨hpages, hview⟩, hkeys⟩
    exact ⟨⟨hpages, hkeys⟩, hview⟩

/-- The keys that the pages of trees take. -/
def keys (symbols : Symbols) (trees : List Tree) : List String :=
  trees.flatMap fun t => (t.types.filter symbols.isPage).filterMap Declaration.key?

/-- Trees can be emitted if and only if the tags of each are in order and the keys of all
are free and different. -/
theorem trees_eq_nil_iff {trees : List Tree} (hnodup : (owners.map Prod.fst).Nodup) :
    owners.trees symbols trees = [] ↔
      (∀ tree ∈ trees, symbols.WellTagged tree) ∧
        (keys symbols trees ++ owners.map Prod.fst).Nodup := by
  induction trees generalizing owners with
  | nil => simp [Owners.trees, keys, hnodup]
  | cons tree rest ih =>
      have hsplit : owners.trees symbols (tree :: rest) = [] ↔
          (owners.tree symbols tree).2 = [] ∧
            (owners.tree symbols tree).1.trees symbols rest = [] := by
        rw [Owners.trees, List.append_eq_nil_iff, List.map_eq_nil_iff]
      -- a tree without problems leaves the owners with its keys in front
      have htaken (htree : (owners.tree symbols tree).2 = []) :
          ((owners.tree symbols tree).1.map Prod.fst).Nodup ∧
            (keys symbols (tree :: rest) ++ owners.map Prod.fst).Perm
              (keys symbols rest ++ (owners.tree symbols tree).1.map Prod.fst) := by
        obtain ⟨hpages, howners⟩ := tree_eq_nil htree
        obtain ⟨hkeys, hnodup⟩ := pages_eq_nil hnodup hpages
        rw [howners]
        refine ⟨hnodup, ?_⟩
        rw [hkeys, keys, List.flatMap_cons, List.append_assoc]
        refine (List.perm_append_comm_assoc _ _ _).trans (List.Perm.append_left _ ?_)
        exact (List.reverse_perm _).symm.append_right _
      rw [hsplit, List.forall_mem_cons]
      constructor
      · rintro ⟨htree, hrest⟩
        obtain ⟨hnodup', hperm⟩ := htaken htree
        obtain ⟨htagged, hkeys⟩ := (ih hnodup').mp hrest
        exact ⟨⟨((tree_eq_nil_iff hnodup).mp htree).1, htagged⟩, hperm.nodup_iff.mpr hkeys⟩
      · rintro ⟨⟨hwell, htagged⟩, hkeys⟩
        have htree : (owners.tree symbols tree).2 = [] := by
          refine (tree_eq_nil_iff hnodup).mpr ⟨hwell, hkeys.sublist ?_⟩
          rw [keys, List.flatMap_cons]
          exact (List.sublist_append_left _ _).append_right _
        obtain ⟨hnodup', hperm⟩ := htaken htree
        exact ⟨htree, (ih hnodup').mpr ⟨htagged, hperm.nodup_iff.mp hkeys⟩⟩

end Owners

/-! ## Compilation -/

namespace Compilation

theorem exists_compile_eq {c : Compilation} (hdiagnostics : c.diagnostics = [])
    (htagged : c.tagged.diagnostics = [])
    (howners : Owners.trees [] c.tagged.symbols c.tagged.trees = []) (name : String) :
    ∃ compiled, c.compile name = .ok compiled ∧
      compiled.module = { name, types := c.tagged.types } := by
  rw [compile, hdiagnostics]
  simp only [htagged, emit, howners]
  exact ⟨_, rfl, rfl⟩

namespace Reordered

variable {c c' : Compilation} (h : c.Reordered c')
include h

theorem types : c.types.Perm c'.types :=
  h.trees.flatMap_right _

theorem owners (hc : c.WellFormed) (howners : Owners.trees [] c.symbols c.trees = []) :
    Owners.trees [] c'.symbols c'.trees = [] := by
  have hempty : (([] : Owners).map Prod.fst).Nodup := List.nodup_nil
  rw [Owners.trees_eq_nil_iff hempty] at howners ⊢
  obtain ⟨htagged, hkeys⟩ := howners
  have hpage := (h.agree hc.nodup).isPage_eq
  refine ⟨fun tree htree => ?_, ?_⟩
  · obtain ⟨hpages, hview⟩ := htagged tree (h.trees.symm.subset htree)
    rw [hpage] at hpages hview
    exact ⟨hpages, hview⟩
  · rw [Owners.keys, hpage] at hkeys
    exact ((h.trees.flatMap_right _).append_right _).nodup_iff.mp hkeys

/-- What compiles in one order compiles in the other, to the same types. -/
theorem exists_compile {name : String} {compiled : Compiled}
    (hcompile : c.compile name = .ok compiled) :
    ∃ compiled', c'.compile name = .ok compiled' ∧
      compiled.module.types.Perm compiled'.module.types := by
  have hyields := yields_of_compile_eq hcompile
  have hc := diagnostics_eq_nil_iff.mp hyields.diagnostics
  have htagged := diagnostics_eq_nil_iff.mp hyields.tagged_diagnostics
  have hreordered := h.tagged hc
  obtain ⟨compiled', hcompile', hmodule⟩ := exists_compile_eq
    (diagnostics_eq_nil_iff.mpr (h.wellFormed hc))
    (diagnostics_eq_nil_iff.mpr (hreordered.wellFormed htagged))
    (hreordered.owners htagged hyields.owners) name
  refine ⟨compiled', hcompile', ?_⟩
  rw [hmodule, hyields.module]
  exact hreordered.types

end Reordered

theorem exists_ofUnits_of_perm {units units' : List GeneratedUnit} (h : units.Perm units')
    {references : List (Except Diagnostic Module)} {c : Compilation}
    (hunits : ofUnits units references = .ok c) :
    ∃ c', ofUnits units' references = .ok c' ∧ c.Reordered c' := by
  obtain ⟨trees, hparse, hperm⟩ := List.perm_comp_forall₂
    (h.symm.filter GeneratedUnit.success) (forall₂_parse hunits)
  have hparsed : (units'.filter GeneratedUnit.success).map (fun u => Source.parse u.path u.code)
      = trees.map .ok := by
    rwa [← List.forall₂_eq_eq_eq, List.forall₂_map_left_iff, List.forall₂_map_right_iff]
  obtain ⟨-, hreferences⟩ := of_ofUnits_eq hunits
  refine ⟨{ trees, references := c.references }, ?_, hperm.symm, rfl⟩
  rw [ofUnits, hparsed, hreferences, partitionOutcomes_map_ok, partitionOutcomes_map_ok]
  rfl

end Compilation

theorem exists_compileUnits_of_perm {units units' : List GeneratedUnit} (h : units.Perm units')
    {name : String} {references : List (Except Diagnostic Module)} {compiled : Compiled}
    (hcompile : compileUnits name units references = .ok compiled) :
    ∃ compiled', compileUnits name units' references = .ok compiled' ∧
      compiled.module.types.Perm compiled'.module.types := by
  rw [compileUnits] at hcompile
  obtain ⟨c, hunits, hcompile⟩ := exists_ok_of_bind hcompile
  obtain ⟨c', hunits', hreordered⟩ := Compilation.exists_ofUnits_of_perm h hunits
  obtain ⟨compiled', hcompile', htypes⟩ := hreordered.exists_compile hcompile
  refine ⟨compiled', ?_, htypes⟩
  rw [compileUnits, hunits']
  exact hcompile'

/-! ## Tags -/

namespace Module

/-- The pairs of view path and type name, in the order of the types. -/
def pairs (m : Module) : List (String × String) :=
  m.taggedTypes.map fun t => (t.1, t.2.name)

/-- Pairs are sorted by path and then by name. -/
def pairLe (a b : String × String) : Bool :=
  decide (a.1 < b.1) || (a.1 == b.1 && decide (a.2 ≤ b.2))

theorem pairLe_iff {a b : String × String} :
    pairLe a b = true ↔ a.1 < b.1 ∨ a.1 = b.1 ∧ a.2 ≤ b.2 := by
  simp [pairLe]

theorem pairLe_antisymm {a b : String × String} (hab : pairLe a b = true)
    (hba : pairLe b a = true) : a = b := by
  rw [pairLe_iff] at hab hba
  refine Prod.ext ?_ ?_ <;> grind

theorem pairwise_tagPairs (m : Module) : m.tagPairs.Pairwise fun a b => pairLe a b = true := by
  refine List.pairwise_mergeSort ?_ ?_ _
  · intro a b c hab hbc
    rw [pairLe_iff] at hab hbc ⊢
    grind
  · intro a b
    rw [Bool.or_eq_true, pairLe_iff, pairLe_iff]
    grind

theorem tagPairs_perm_pairs (m : Module) : m.tagPairs.Perm m.pairs :=
  List.mergeSort_perm _ _

variable {m m' : Module}

/-- Sorting the pairs forgets their order and nothing else. -/
theorem tagPairs_eq_iff : m.tagPairs = m'.tagPairs ↔ m.pairs.Perm m'.pairs := by
  constructor
  · intro h
    exact (tagPairs_perm_pairs m).symm.trans (h ▸ tagPairs_perm_pairs m')
  · intro h
    exact List.Perm.eq_of_pairwise (fun a b _ _ => pairLe_antisymm) (pairwise_tagPairs m)
      (pairwise_tagPairs m') (((tagPairs_perm_pairs m).trans h).trans (tagPairs_perm_pairs m').symm)

theorem fingerprint_eq_of_pairs_perm (h : m.pairs.Perm m'.pairs) :
    m.fingerprint = m'.fingerprint := by
  rw [fingerprint, fingerprint, fingerprintInput, fingerprintInput, tagPairs_eq_iff.mpr h]

section

variable (h : m.types.Perm m'.types)
include h

theorem pairs_perm : m.pairs.Perm m'.pairs :=
  (h.filterMap _).map _

theorem fingerprint_eq_of_perm : m.fingerprint = m'.fingerprint :=
  fingerprint_eq_of_pairs_perm (pairs_perm h)

end

end Module

/-- The order of units decides neither whether they compile nor what they compile to. The
module has the same types in another order, with the same view paths, and the same
fingerprint. -/
theorem compileUnits_perm {units units' : List GeneratedUnit} (h : units.Perm units')
    (name : String) (references : List (Except Diagnostic Module)) :
    ((∃ compiled, compileUnits name units references = .ok compiled) ↔
        ∃ compiled, compileUnits name units' references = .ok compiled) ∧
      ∀ compiled compiled', compileUnits name units references = .ok compiled →
        compileUnits name units' references = .ok compiled' →
        compiled.module.types.Perm compiled'.module.types ∧
          compiled.module.pairs.Perm compiled'.module.pairs ∧
          compiled.module.fingerprint = compiled'.module.fingerprint := by
  refine ⟨⟨?_, ?_⟩, ?_⟩
  · rintro ⟨compiled, hcompile⟩
    obtain ⟨compiled', hcompile', -⟩ := exists_compileUnits_of_perm h hcompile
    exact ⟨compiled', hcompile'⟩
  · rintro ⟨compiled, hcompile⟩
    obtain ⟨compiled', hcompile', -⟩ := exists_compileUnits_of_perm h.symm hcompile
    exact ⟨compiled', hcompile'⟩
  · intro compiled compiled' hcompile hcompile'
    obtain ⟨found, hfound, htypes⟩ := exists_compileUnits_of_perm h hcompile
    obtain rfl := Except.ok.inj (hfound.symm.trans hcompile')
    exact ⟨htypes, Module.pairs_perm htypes, Module.fingerprint_eq_of_perm htypes⟩

def layoutUnit : GeneratedUnit where
  path := "b"
  code := "class B:Page{}"
  diagnostics := []

/-- A unit with a page that derives from the page of another. -/
def viewUnit : GeneratedUnit where
  path := "a"
  code := "class A:B{}"
  diagnostics := []

theorem compileUnits_perm_layout :
    [viewUnit, layoutUnit].Perm [layoutUnit, viewUnit] ∧
      ∃ compiled compiled',
        compileUnits "m" [viewUnit, layoutUnit] [.ok Module.host] = .ok compiled ∧
        compileUnits "m" [layoutUnit, viewUnit] [.ok Module.host] = .ok compiled' ∧
        compiled.module.types.Perm compiled'.module.types ∧
        compiled.module.fingerprint = compiled'.module.fingerprint := by
  have hperm : [viewUnit, layoutUnit].Perm [layoutUnit, viewUnit] := List.Perm.swap _ _ _
  have hok : (compileUnits "m" [viewUnit, layoutUnit] [.ok Module.host]).isOk = true := by
    decide +kernel
  obtain ⟨compiled, hcompile⟩ := exists_ok_of_isOk hok
  obtain ⟨hiff, hsame⟩ := compileUnits_perm hperm "m" [.ok Module.host]
  obtain ⟨compiled', hcompile'⟩ := hiff.mp ⟨compiled, hcompile⟩
  obtain ⟨htypes, -, hfingerprint⟩ := hsame compiled compiled' hcompile hcompile'
  exact ⟨hperm, compiled, compiled', hcompile, hcompile', htypes, hfingerprint⟩

end ViewPress
