import ViewPress.Proofs.Indexing
import ViewPress.Proofs.Pages

/-!
# Which types carry a view path

Three parts of the library ask which types have a view path. Tagging writes one onto
the first page of a unit and takes it off the pages after it. Emission refuses two
pages whose paths have the same key. The index takes every type with a path, page or
not, and refuses two with the same key.

The three agree as long as only pages have paths. A type that is no page keeps its
attributes, and a path among them that someone wrote by hand goes into the index
unchecked, where it may clash with another one.
-/

namespace ViewPress

open Source (Declaration Tree)
open ViewPath (lookupKey)

/-! ## Keys of pages -/

/-- The lookup key that a declaration asks for. -/
def Source.Declaration.key? (d : Declaration) : Option String :=
  d.typeDef.viewPath?.map lookupKey

theorem key?_eq_head?_tags (d : Declaration) :
    d.key? = (d.tags.head?.bind (·.args.head?)).map lookupKey := by
  rw [Declaration.key?, viewPath?_typeDef, Declaration.tags, List.head?_filter]

namespace Owners

variable {owners : Owners} {symbols : Symbols}

/-- A page without problems has taken its key, which nobody had. -/
theorem page_eq_nil {d : Declaration} (hnodup : (owners.map Prod.fst).Nodup)
    (h : (owners.page d).2 = []) :
    (owners.page d).1.map Prod.fst = d.key?.toList ++ owners.map Prod.fst ∧
      ((owners.page d).1.map Prod.fst).Nodup := by
  rw [key?_eq_head?_tags]
  rw [page] at h ⊢
  split at h
  · next htags =>
      rw [htags]
      exact ⟨rfl, hnodup⟩
  · next tag htags =>
      rw [htags]
      split at h
      · next path hargs =>
          simp only at h ⊢
          cases hfound : owners.lookup (lookupKey path) with
          | some first =>
              rw [hfound] at h
              cases h
          | none =>
              refine ⟨by simp [hargs], ?_⟩
              rw [List.map_cons, List.nodup_cons]
              exact ⟨lookup_eq_none_iff_notMem.mp hfound, hnodup⟩
      · cases h
  · cases h

/-- Pages without problems have taken their keys, which are all different. -/
theorem pages_eq_nil {ds : List Declaration} (hnodup : (owners.map Prod.fst).Nodup)
    (h : (owners.pages ds).2 = []) :
    (owners.pages ds).1.map Prod.fst
        = (ds.filterMap Declaration.key?).reverse ++ owners.map Prod.fst ∧
      ((owners.pages ds).1.map Prod.fst).Nodup := by
  induction ds generalizing owners with
  | nil => exact ⟨rfl, hnodup⟩
  | cons d rest ih =>
      obtain ⟨hpage, hrest⟩ := List.append_eq_nil_iff.mp h
      obtain ⟨hkey, hnodup⟩ := page_eq_nil hnodup (List.map_eq_nil_iff.mp hpage)
      obtain ⟨hkeys, hnodup⟩ := ih hnodup hrest
      refine ⟨?_, hnodup⟩
      rw [pages]
      refine hkeys.trans ?_
      rw [hkey, List.filterMap_cons]
      cases d.key? <;> simp

theorem tree_eq_nil {tree : Tree} (h : (owners.tree symbols tree).2 = []) :
    (owners.pages (tree.types.filter symbols.isPage)).2 = [] ∧
      (owners.tree symbols tree).1
        = (owners.pages (tree.types.filter symbols.isPage)).1 := by
  simp only [Owners.tree] at h ⊢
  cases hpages : tree.types.filter symbols.isPage with
  | nil => exact ⟨by rwa [hpages] at h, rfl⟩
  | cons first rest =>
      simp only [hpages] at h ⊢
      split at h
      · cases (List.append_eq_nil_iff.mp h).2
      · next hall => exact ⟨h, by rw [if_neg hall]⟩

/-- The keys of the pages of a forest. -/
theorem nodup_key_of_trees_eq_nil {trees : List Tree} (hnodup : (owners.map Prod.fst).Nodup)
    (h : owners.trees symbols trees = []) :
    ((trees.flatMap fun t => (t.types.filter symbols.isPage).filterMap Declaration.key?).reverse
      ++ owners.map Prod.fst).Nodup := by
  induction trees generalizing owners with
  | nil => exact hnodup
  | cons tree rest ih =>
      obtain ⟨htree, hrest⟩ := List.append_eq_nil_iff.mp h
      obtain ⟨hpages, howners⟩ := tree_eq_nil (List.map_eq_nil_iff.mp htree)
      obtain ⟨hkeys, hnodup⟩ := pages_eq_nil hnodup hpages
      rw [← howners] at hkeys hnodup
      have hall := ih hnodup hrest
      rw [List.flatMap_cons, List.reverse_append, List.append_assoc, ← hkeys]
      exact hall

end Owners

/-! ## Tags of a unit -/

theorem decide_isPage_typeDef (symbols : Symbols) (d : Declaration) :
    decide (d.typeDef.IsPage symbols) = symbols.isPage d := by
  rw [Bool.eq_iff_iff, decide_eq_true_iff, Symbols.isPage_iff]

theorem filter_isPage_map_typeDef (symbols : Symbols) (ds : List Declaration) :
    (ds.map Declaration.typeDef).filter (·.IsPage symbols)
      = (ds.filter symbols.isPage).map Declaration.typeDef := by
  rw [List.filter_map]
  exact congrArg _ (List.filter_congr fun d _ => decide_isPage_typeDef symbols d)

theorem filter_not_isPage_map_typeDef (symbols : Symbols) (ds : List Declaration) :
    (ds.map Declaration.typeDef).filter (¬ ·.IsPage symbols)
      = (ds.filter (!symbols.isPage ·)).map Declaration.typeDef := by
  rw [List.filter_map]
  refine congrArg _ (List.filter_congr fun d _ => ?_)
  rw [Function.comp, decide_not, decide_isPage_typeDef]

/-- How the types that a unit at `path` declares are emitted: one page has a view path,
which is the path of the unit, and the types that are no pages are as they were. -/
structure Symbols.Tags (symbols : Symbols) (path : String) (declared emitted : List TypeDef) :
    Prop where
  pages : (emitted.filter (·.IsPage symbols)).filterMap TypeDef.viewPath?
    = if ∃ t ∈ declared, t.IsPage symbols then [path] else []
  others : emitted.filter (¬ ·.IsPage symbols) = declared.filter (¬ ·.IsPage symbols)

/-- Only pages have a view path, one of them at most, and it is `path`. -/
structure Symbols.OnlyPagesTagged (symbols : Symbols) (path : String) (types : List TypeDef) :
    Prop where
  page : ∀ t ∈ types, ∀ p ∈ t.viewPath?, t.IsPage symbols ∧ p = path
  once : (types.filterMap TypeDef.viewPath?).length ≤ 1

/-- If only pages have view paths, all view paths are those of pages. -/
theorem filterMap_viewPath?_eq {symbols : Symbols} {types : List TypeDef}
    (h : ∀ t ∈ types, ¬ t.IsPage symbols → t.viewPath? = none) :
    types.filterMap TypeDef.viewPath?
      = (types.filter (·.IsPage symbols)).filterMap TypeDef.viewPath? := by
  rw [List.filterMap_filter]
  refine List.filterMap_congr fun t ht => ?_
  by_cases hpage : t.IsPage symbols
  · rw [if_pos (by simpa using hpage)]
  · rw [if_neg (by simpa using hpage), h t ht hpage]

theorem Symbols.Tags.onlyPagesTagged {symbols : Symbols} {path : String}
    {declared emitted : List TypeDef} (htags : symbols.Tags path declared emitted)
    (h : ∀ t ∈ emitted, ¬ t.IsPage symbols → t.viewPath? = none) :
    symbols.OnlyPagesTagged path emitted := by
  have hpaths := (filterMap_viewPath?_eq h).trans htags.pages
  refine ⟨fun t ht p hp => ⟨?_, ?_⟩, ?_⟩
  · by_contra hpage
    rw [h t ht hpage] at hp
    cases hp
  · have hmem : p ∈ emitted.filterMap TypeDef.viewPath? := List.mem_filterMap.mpr ⟨t, ht, hp⟩
    rw [hpaths] at hmem
    split at hmem
    · exact List.mem_singleton.mp hmem
    · cases hmem
  · rw [hpaths]
    split
    · exact Nat.le_refl 1
    · exact Nat.zero_le 1

/-- Only pages are tagged in all units if and only if they are in the types of all units
together. -/
theorem forall₂_onlyPagesTagged_iff {symbols : Symbols} {units : List GeneratedUnit}
    {groups : List (List TypeDef)}
    (htags : List.Forall₂
      (fun u types => ∃ declared, symbols.Tags u.path declared types) units groups) :
    List.Forall₂ (fun u types => symbols.OnlyPagesTagged u.path types) units groups ↔
      ∀ t ∈ groups.flatten, ¬ t.IsPage symbols → t.viewPath? = none := by
  constructor
  · intro honly t ht hpage
    obtain ⟨types, htypes, ht⟩ := List.mem_flatten.mp ht
    obtain ⟨u, -, hu⟩ := exists_of_forall₂ honly.flip htypes
    rw [Option.eq_none_iff_forall_not_mem]
    exact fun p hp => hpage (hu.page t ht p hp).1
  · intro h
    refine (forall₂_and_mem htags).imp ?_
    rintro u types ⟨⟨declared, htypes⟩, hmem⟩
    exact htypes.onlyPagesTagged fun t ht => h t (List.mem_flatten.mpr ⟨types, hmem, ht⟩)

namespace Compilation

variable {c : Compilation} (hdiagnostics : c.diagnostics = [])
  (htagged : c.tagged.diagnostics = []) (hhost : Module.host ∈ c.references)
include hdiagnostics htagged hhost

theorem tags_of_mem {tree : Tree} (htree : tree ∈ c.trees) :
    c.symbols.Tags tree.path (tree.types.map Declaration.typeDef)
      ((tagTree c.symbols tree).types.map Declaration.typeDef) := by
  have hbefore : ∀ d ∈ tree.types, c.symbols.isPageClass d = c.symbols.isPage d := by
    intro d hd
    exact isPageClass_eq_isPage hdiagnostics (exports_pageMarker hhost) htree hd
  have hafter : ∀ d ∈ (tagTree c.symbols tree).types,
      c.symbols.isPageClass d = c.symbols.isPage d := by
    intro d hd
    rw [← symbols_tagged]
    exact isPageClass_eq_isPage htagged (exports_pageMarker hhost)
      (List.mem_map.mpr ⟨tree, htree, rfl⟩) hd
  constructor
  · have hpages : (∃ t ∈ tree.types.map Declaration.typeDef, t.IsPage c.symbols)
        ↔ tree.types.any c.symbols.isPageClass = true := by
      rw [List.any_eq_true]
      simp only [List.mem_map, exists_exists_and_eq_and]
      refine exists_congr fun d => and_congr_right fun hd => ?_
      rw [hbefore d hd, Symbols.isPage_iff]
    rw [filter_isPage_map_typeDef, ← List.filter_congr hafter, List.filterMap_map,
      if_congr hpages rfl rfl]
    exact viewPaths_tagTypes (fun _ => rfl) (fun _ _ => rfl) tree.path false tree.types
  · rw [filter_not_isPage_map_typeDef, filter_not_isPage_map_typeDef,
      ← List.filter_congr fun d hd => congrArg not (hafter d hd),
      ← List.filter_congr fun d hd => congrArg not (hbefore d hd)]
    exact congrArg _ (filter_not_tagTypes (fun _ => rfl) (fun _ _ => rfl) _ _ _)

/-- Types that are no pages are emitted as they are declared. -/
theorem filter_not_types_tagged :
    c.tagged.types.filter (¬ ·.IsPage c.symbols) = c.types.filter (¬ ·.IsPage c.symbols) := by
  rw [types, types, tagged, List.flatMap_map, List.filter_flatMap, List.filter_flatMap]
  exact List.flatMap_congr fun tree htree => (tags_of_mem hdiagnostics htagged hhost htree).others

theorem forall_types_tagged_iff :
    (∀ t ∈ c.tagged.types, ¬ t.IsPage c.symbols → t.viewPath? = none) ↔
      ∀ t ∈ c.types, ¬ t.IsPage c.symbols → t.viewPath? = none := by
  have hfilter (types : List TypeDef) :
      (∀ t ∈ types, ¬ t.IsPage c.symbols → t.viewPath? = none) ↔
        ∀ t ∈ types.filter (¬ ·.IsPage c.symbols), t.viewPath? = none := by
    simp only [List.mem_filter, decide_eq_true_iff, and_imp]
  rw [hfilter, hfilter, filter_not_types_tagged hdiagnostics htagged hhost]

end Compilation

/-! ## Tags of a module -/

theorem map_key_taggedTypes (m : Module) :
    (m.taggedTypes.map fun t => lookupKey t.1)
      = (m.types.filterMap TypeDef.viewPath?).map lookupKey := by
  rw [Module.taggedTypes, List.map_filterMap, List.map_filterMap]
  refine List.filterMap_congr fun t _ => ?_
  cases t.viewPath? <;> rfl

/-- The pages of an emitted module have different keys. -/
theorem Compilation.nodup_key_types {c : Compilation}
    (h : Owners.trees [] c.symbols c.trees = []) :
    (((c.types.filter (·.IsPage c.symbols)).filterMap TypeDef.viewPath?).map lookupKey).Nodup := by
  have hempty : (([] : Owners).map Prod.fst).Nodup := List.nodup_nil
  have hkeys := Owners.nodup_key_of_trees_eq_nil hempty h
  rw [List.map_nil, List.append_nil, (List.reverse_perm _).nodup_iff] at hkeys
  rw [types, List.filter_flatMap, List.filterMap_flatMap, List.map_flatMap]
  convert hkeys using 3 with tree
  rw [filter_isPage_map_typeDef, List.filterMap_map, List.map_filterMap]
  rfl

theorem path_of_parse_eq {path source : String} {tree : Tree}
    (h : Source.parse path source = .ok tree) : tree.path = path := by
  rw [Source.parse] at h
  split at h <;> cases h
  rfl

theorem Compilation.forall₂_tags {name : String} {units : List GeneratedUnit}
    {references : List (Except Diagnostic Module)} {c : Compilation} {compiled : Compiled}
    (hunits : ofUnits units references = .ok c) (hyields : c.Yields name compiled)
    (hhost : Module.host ∈ c.references) :
    List.Forall₂
      (fun u types => ∃ tree, Source.parse u.path u.code = .ok tree ∧
        c.symbols.Tags u.path (tree.types.map Declaration.typeDef) types)
      (units.filter GeneratedUnit.success)
      (c.tagged.trees.map fun tree => tree.types.map Declaration.typeDef) := by
  rw [tagged, List.map_map, List.forall₂_map_right_iff]
  refine (forall₂_and_mem (forall₂_parse hunits)).imp ?_
  rintro u tree ⟨hparse, htree⟩
  refine ⟨tree, hparse, ?_⟩
  rw [← path_of_parse_eq hparse]
  exact tags_of_mem hyields.diagnostics hyields.tagged_diagnostics hhost htree

/-- What is tagged in a module, whatever the units declare. Of each unit that has a page,
one page has the path of the unit and the other pages have none. Types that are no
pages are those declared, with their attributes. Pages never clash in the index. So only
pages are indexed, each under the path of its unit, if and only if no declared type
that is not a page has a view path of its own. -/
theorem tagged_types_of_compileUnits {name : String} {units : List GeneratedUnit}
    {references : List (Except Diagnostic Module)} {compiled : Compiled}
    (hhost : .ok Module.host ∈ references)
    (hcompile : compileUnits name units references = .ok compiled) :
    ∃ c groups,
      Compilation.ofUnits units references = .ok c ∧
      compiled.module.types = groups.flatten ∧
      List.Forall₂
        (fun u types => ∃ tree, Source.parse u.path u.code = .ok tree ∧
          c.symbols.Tags u.path (tree.types.map Declaration.typeDef) types)
        (units.filter GeneratedUnit.success) groups ∧
      (((compiled.module.types.filter (·.IsPage c.symbols)).filterMap
        TypeDef.viewPath?).map lookupKey).Nodup ∧
      ((∃ index, ViewIndex.build compiled.module = .ok index) ↔
        ((compiled.module.types.filterMap TypeDef.viewPath?).map lookupKey).Nodup) ∧
      ((List.Forall₂ (fun u types => c.symbols.OnlyPagesTagged u.path types)
            (units.filter GeneratedUnit.success) groups ∧
          ∃ index, ViewIndex.build compiled.module = .ok index) ↔
        ∀ t ∈ c.types, ¬ t.IsPage c.symbols → t.viewPath? = none) := by
  obtain ⟨c, hunits, hyields⟩ := exists_yields_of_compileUnits_eq hcompile
  have hhost : Module.host ∈ c.references := by
    rw [(Compilation.of_ofUnits_eq hunits).2] at hhost
    obtain ⟨m, hm, heq⟩ := List.mem_map.mp hhost
    rwa [← Except.ok.inj heq]
  have htypes : compiled.module.types = c.tagged.types := by rw [hyields.module]
  have htags := Compilation.forall₂_tags hunits hyields hhost
  have hkeys := Compilation.nodup_key_types hyields.owners
  rw [Compilation.symbols_tagged, ← htypes] at hkeys
  have hbuild : (∃ index, ViewIndex.build compiled.module = .ok index) ↔
      ((compiled.module.types.filterMap TypeDef.viewPath?).map lookupKey).Nodup := by
    rw [ViewIndex.build_ok_iff, map_key_taggedTypes]
  refine ⟨c, _, hunits, ?_, htags, hkeys, hbuild, ?_⟩
  · rw [htypes, Compilation.types, List.flatMap_def]
  rw [forall₂_onlyPagesTagged_iff (htags.imp fun u types ⟨tree, _, h⟩ => ⟨_, h⟩),
    ← List.flatMap_def, ← Compilation.types,
    ← Compilation.forall_types_tagged_iff hyields.diagnostics hyields.tagged_diagnostics hhost]
  -- What is left is that pages alone cannot clash.
  refine and_iff_left_of_imp fun h => ?_
  rw [← htypes] at h
  rwa [hbuild, filterMap_viewPath?_eq h]

/-- Two pages, of which the second one has a path of its own, and an interface. -/
def layoutAndView : List Char :=
  "class A:Page\x7b\x7d#[ViewPath(\"y\")]class B:A\x7b\x7dinterface I\x7b\x7d".toList

/-- Nothing but the layout, which comes first, is tagged. -/
theorem tagged_types_of_layoutAndView :
    let units : List GeneratedUnit :=
      [{ path := "a", code := String.ofList layoutAndView, diagnostics := [] }]
    .ok Module.host ∈ [(.ok Module.host : Except Diagnostic Module)] ∧
      ∃ c compiled groups,
        Compilation.ofUnits units [.ok Module.host] = .ok c ∧
        compileUnits "m" units [.ok Module.host] = .ok compiled ∧
        compiled.module.types = groups.flatten ∧
        List.Forall₂ (fun u types => c.symbols.OnlyPagesTagged u.path types)
          (units.filter GeneratedUnit.success) groups ∧
        ∃ index, ViewIndex.build compiled.module = .ok index := by
  intro units
  have hhost : .ok Module.host ∈ [(.ok Module.host : Except Diagnostic Module)] :=
    List.mem_singleton_self _
  obtain ⟨c, compiled, hunits, hcompile, hpages⟩ := exists_compiled_of_chars [Module.host] "m" "a"
    layoutAndView (fun c _ => c.types.all fun t => t.IsPage c.symbols ∨ t.viewPath? = none) true
    (by decide +kernel)
  obtain ⟨c', groups, hunits', htypes, -, -, -, honly⟩ :=
    tagged_types_of_compileUnits hhost hcompile
  obtain rfl := Except.ok.inj (hunits'.symm.trans hunits)
  have hnone : ∀ t ∈ c'.types, ¬ t.IsPage c'.symbols → t.viewPath? = none := by
    intro t ht hpage
    have h := List.all_eq_true.mp hpages t ht
    exact (decide_eq_true_iff.mp h).resolve_left hpage
  exact ⟨hhost, c', compiled, groups, hunits, hcompile, htypes, honly.mpr hnone⟩

/-- Two classes without a base that have the same path. -/
def taggedHelpers : List Char :=
  "#[ViewPath(\"x\")]class A\x7b\x7d#[ViewPath(\"x\")]class B\x7b\x7d".toList

/-- They are compiled with their paths, and no index can be built of their module. -/
theorem not_page_of_taggedHelpers :
    let units : List GeneratedUnit :=
      [{ path := "a", code := String.ofList taggedHelpers, diagnostics := [] }]
    ∃ c compiled,
      Compilation.ofUnits units [.ok Module.host] = .ok c ∧
      compileUnits "m" units [.ok Module.host] = .ok compiled ∧
      (∃ t ∈ compiled.module.types, t.viewPath? = some "x" ∧ ¬ t.IsPage c.symbols) ∧
      ∀ index, ViewIndex.build compiled.module ≠ .ok index := by
  obtain ⟨c, compiled, hunits, hcompile, hfacts⟩ := exists_compiled_of_chars [Module.host] "m" "a"
    taggedHelpers
    (fun c compiled =>
      (compiled.module.types.any fun t => t.viewPath? = some "x" ∧ ¬ t.IsPage c.symbols,
        (ViewIndex.build compiled.module).isOk)) (true, false)
    (by decide +kernel)
  obtain ⟨hany, hbuild⟩ := Prod.mk.inj hfacts
  refine ⟨c, compiled, hunits, hcompile, ?_, ?_⟩
  · obtain ⟨t, ht, h⟩ := List.any_eq_true.mp hany
    exact ⟨t, ht, decide_eq_true_iff.mp h⟩
  · intro index hindex
    rw [hindex] at hbuild
    cases hbuild

end ViewPress
