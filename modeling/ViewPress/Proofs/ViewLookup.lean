import ViewPress.Project.Discovery
import ViewPress.Proofs.Indexing
import ViewPress.Proofs.Pages
import ViewPress.Proofs.Pipeline

/-!
# One identity for every view

A view is known by the path of its template from the disk to the request. Discovery
refuses templates whose paths have the same lookup key; tagging writes the path of a
page onto its class; the index files the class under the key of that path. So a
request finds a page exactly when it has the key of the page's template, and what it
finds carries the template's path as it was discovered.

A template without the page marker behind its base is compiled like the others, but
gets no path and cannot be asked for.
-/

namespace ViewPress

open ViewPath (lookupKey)

/-! ## Discovered templates -/

namespace Project

/-- Templates without collisions have different keys. -/
theorem nodup_key_of_collisions_eq_nil {files : List TemplateFile} (h : collisions files = []) :
    (files.map TemplateFile.key).Nodup := by
  simp only [collisions, List.filter_eq_nil_iff, List.forall_mem_map, List.mem_mergeSort,
    List.mem_eraseDups] at h
  rw [List.nodup_iff_count]
  intro key
  by_cases hkey : key ∈ files.map TemplateFile.key
  · obtain ⟨f, hf, rfl⟩ := List.mem_map.mp hkey
    have hgroup := h f hf
    rw [List.count_eq_countP, List.countP_map, List.countP_eq_length_filter]
    simpa [Function.comp_def] using hgroup
  · rw [List.count_eq_zero.mpr hkey]
    exact Nat.zero_le 1

/-- What is known of a discovery that succeeds. -/
theorem exists_of_discover_eq_ok {d : Disk} {root : Path} {pattern : String} {exclude : List String}
    {skip : List Path} {files : List TemplateFile}
    (h : discover d root pattern exclude skip = .ok files) :
    ∃ here found, d.find root = .ok (here, .directory) ∧
      (candidates d root here skip).mapM (templateFile root) = .ok found ∧
      files = (found.filter (isSelected pattern exclude)).mergeSort TemplateFile.le ∧
      collisions files = [] := by
  rw [discover] at h
  split at h
  · next here hroot =>
      obtain ⟨found, hfound, h⟩ := exists_ok_of_bind h
      simp only at h
      split at h
      · next hnone =>
          cases h
          exact ⟨here, found, hroot, hfound, rfl, hnone⟩
      · cases h
  · cases h

theorem nodup_key_of_discover_eq_ok {d : Disk} {root : Path} {pattern : String}
    {exclude : List String} {skip : List Path} {files : List TemplateFile}
    (h : discover d root pattern exclude skip = .ok files) :
    (files.map TemplateFile.key).Nodup := by
  obtain ⟨-, -, -, -, -, hnone⟩ := exists_of_discover_eq_ok h
  exact nodup_key_of_collisions_eq_nil hnone

end Project

/-! ## Templates of pages -/

/-- The bytes spell a template whose base leads to the page marker. -/
def Symbols.PageFile (symbols : Symbols) (bytes : List UInt8) : Prop :=
  ∃ t ∈ Template.ofBytes? bytes,
    symbols.Derives (t.inherits.getD Module.pageBase) Module.pageMarker

instance (symbols : Symbols) (bytes : List UInt8) : Decidable (symbols.PageFile bytes) :=
  inferInstanceAs (Decidable (∃ t ∈ Template.ofBytes? bytes, _))

theorem filterMap_of_forall₂ {α β γ : Type} {f : α → Option γ} {g : β → Option γ} {as : List α}
    {bs : List β} (h : List.Forall₂ (fun a b => g b = f a) as bs) :
    bs.filterMap g = as.filterMap f := by
  induction h with
  | nil => rfl
  | cons hab _ ih => rw [List.filterMap_cons, List.filterMap_cons, hab, ih]

/-- The tagged type that a file gives a module, if it is a page. -/
def Symbols.tagged? (symbols : Symbols) (f : String × List UInt8) : Option (String × TypeDef) :=
  (Template.ofBytes? f.2).bind fun t =>
    if symbols.PageFile f.2 then
      some (f.1, t.type f.1 [{ name := Module.viewPathAttribute, args := [f.1] }])
    else none

theorem Template.viewPath?_type (t : Template) (path : String) :
    (t.type path [{ name := Module.viewPathAttribute, args := [path] }]).viewPath?
      = some path := by
  simp [TypeDef.viewPath?, Template.type]

theorem Symbols.exists_tagged? {symbols : Symbols} {f : String × List UInt8}
    (h : symbols.PageFile f.2) :
    ∃ type : TypeDef, symbols.tagged? f = some (f.1, type) ∧ type.viewPath? = some f.1 ∧
      type.name = Template.className f.1 := by
  obtain ⟨t, ht, -⟩ := id h
  refine ⟨t.type f.1 [{ name := Module.viewPathAttribute, args := [f.1] }], ?_,
    t.viewPath?_type f.1, rfl⟩
  rw [tagged?, ht, Option.bind_some, if_pos h]

theorem Symbols.tagged?_eq_none {symbols : Symbols} {f : String × List UInt8}
    (h : ¬ symbols.PageFile f.2) : symbols.tagged? f = none := by
  rw [tagged?]
  cases Template.ofBytes? f.2 with
  | none => rfl
  | some t => exact if_neg h

/-- The keys of the tagged types are those of the pages' paths. -/
theorem Symbols.map_key_tagged? (symbols : Symbols) (files : List (String × List UInt8)) :
    (files.filterMap symbols.tagged?).map (fun t => lookupKey t.1)
      = (files.filter (symbols.PageFile ·.2)).map fun f => lookupKey f.1 := by
  induction files with
  | nil => rfl
  | cons f files ih =>
      rw [List.filterMap_cons]
      by_cases hfile : symbols.PageFile f.2
      · obtain ⟨type, htagged, -⟩ := exists_tagged? hfile
        rw [htagged, List.filter_cons_of_pos (by simpa using hfile), List.map_cons, List.map_cons,
          ih]
      · rw [tagged?_eq_none hfile, List.filter_cons_of_neg (by simpa using hfile)]
        exact ih

section

variable {application name : String} {files : List (String × List UInt8)}
  {references : List (Except Diagnostic Module)} {c : Compilation} {compiled : Compiled}
  (hsuccess : ∀ f ∈ files, (GeneratedUnit.ofBytes application f.1 f.2).success = true)
  (hunits : Compilation.ofUnits
    (files.map fun f => GeneratedUnit.ofBytes application f.1 f.2) references = .ok c)
include hsuccess hunits

/-- Every template of a compilation has declared its class. -/
theorem exists_declared {f : String × List UInt8} (hf : f ∈ files) :
    ∃ t index tree d, Template.ofBytes? f.2 = some t ∧ (index, tree, d) ∈ c.declarations ∧
      d.typeDef = t.type f.1 [] := by
  obtain ⟨tree, htree, -, t, d, ht, htypes, hd⟩ :=
    exists_of_forall₂ (forall₂_isOf hsuccess hunits) hf
  have hmem : d ∈ tree.types := by
    rw [htypes]
    exact List.mem_singleton_self d
  obtain ⟨index, hindex⟩ := Compilation.exists_mem_declarations htree hmem
  exact ⟨t, index, tree, d, ht, hindex, hd⟩

/-- The class of a template is a page class if its base leads to the page marker. -/
theorem isPageClass_declaration_iff (hdiagnostics : c.diagnostics = [])
    {f : String × List UInt8} {t : Template} (hf : f ∈ files)
    (ht : Template.ofBytes? f.2 = some t) :
    c.symbols.isPageClass (t.declaration f.1) = true ↔ c.symbols.PageFile f.2 := by
  obtain ⟨t', index, tree, d, ht', hd, htype⟩ := exists_declared hsuccess hunits hf
  obtain rfl : t' = t := Option.some.inj (ht'.symm.trans ht)
  have hkind : d.kind = .classType := typeKind_injective (congrArg TypeDef.kind htype)
  have hbases : d.bases.map Source.BaseRef.name = [t'.inherits.getD Module.pageBase] :=
    congrArg TypeDef.bases htype
  obtain ⟨b, hb, hname⟩ := List.map_eq_singleton_iff.mp hbases
  rw [← isPageClass_congr (htype.trans (Template.typeDef_declaration f.1 t').symm),
    Compilation.isPageClass_iff hdiagnostics hd, Symbols.Page, Symbols.PageFile, ht]
  simp [hkind, hb, hname]

/-- The tagged types of a module of templates are those of its pages, in order. -/
theorem filterMap_types_tagged (hdiagnostics : c.diagnostics = []) :
    c.tagged.types.filterMap (fun type => type.viewPath?.map fun path => (path, type))
      = files.filterMap c.symbols.tagged? := by
  refine filterMap_of_forall₂ ?_
  have hall := (List.forall₂_and_left _ _).mpr
    ⟨fun f hf => hf, forall₂_types_tagged hsuccess hunits⟩
  refine hall.imp ?_
  rintro f type ⟨hf, t, ht, htype⟩
  have hpage := isPageClass_declaration_iff hsuccess hunits hdiagnostics hf ht
  rw [Symbols.tagged?, ht, Option.bind_some, htype]
  by_cases hfile : c.symbols.PageFile f.2
  · rw [if_pos (hpage.mpr hfile), if_pos hfile, Template.viewPath?_type]
    rfl
  · rw [if_neg fun h => hfile (hpage.mp h), if_neg hfile]
    rfl

/-- An index of a module of templates whose paths have different keys finds the pages. -/
theorem exists_index (hyields : c.Yields name compiled)
    (hnodup : (files.map fun f => lookupKey f.1).Nodup) :
    ∃ index, ViewIndex.build compiled.module = .ok index ∧
      (∀ f ∈ files, c.symbols.PageFile f.2 → ∀ q, lookupKey q = lookupKey f.1 →
        ∃ view, index.get? q = some view ∧ view.path? = some f.1 ∧
          view.type.name = Template.className f.1) ∧
      (∀ q, (∀ f ∈ files, c.symbols.PageFile f.2 → lookupKey q ≠ lookupKey f.1) →
        index.get? q = none) ∧
      index.size = files.countP fun f => c.symbols.PageFile f.2 := by
  have htagged : compiled.module.taggedTypes = files.filterMap c.symbols.tagged? := by
    rw [hyields.module]
    exact filterMap_types_tagged hsuccess hunits hyields.diagnostics
  have hkeys := c.symbols.map_key_tagged? files
  rw [← htagged] at hkeys
  have hdistinct : (compiled.module.taggedTypes.map fun t => lookupKey t.1).Nodup := by
    rw [hkeys]
    exact hnodup.sublist (List.filter_sublist.map _)
  have hentries : (compiled.module.taggedTypes.map
      (ViewIndex.entry compiled.module.name)).map Prod.fst
      = compiled.module.taggedTypes.map fun t => lookupKey t.1 := by
    rw [List.map_map]
    rfl
  refine ⟨_, ViewIndex.build_eq_ok hdistinct, ?_, ?_, ?_⟩
  · intro f hf hpage q hq
    obtain ⟨type, htype, hpath, hname⟩ := Symbols.exists_tagged? hpage
    refine ⟨{ module := compiled.module.name, type }, ?_, hpath, hname⟩
    rw [ViewIndex.get?, hq]
    refine lookup_eq_some_of_mem (by rw [hentries]; exact hdistinct) ?_
    refine List.mem_map.mpr ⟨(f.1, type), ?_, rfl⟩
    rw [htagged]
    exact List.mem_filterMap.mpr ⟨f, hf, htype⟩
  · intro q hq
    rw [ViewIndex.get?, lookup_eq_none_iff_notMem, hentries, hkeys]
    intro hmem
    obtain ⟨f, hf, hkey⟩ := List.mem_map.mp hmem
    obtain ⟨hf, hpage⟩ := List.mem_filter.mp hf
    exact hq f hf (by simpa using hpage) hkey.symm
  · have hlength := congrArg List.length hkeys
    rw [List.length_map, List.length_map, ← List.countP_eq_length_filter] at hlength
    rw [ViewIndex.size, List.length_map, hlength]

end

/-! ## Requests -/

open Project (TemplateFile)

/-- An index can be built of every module of discovered templates. A request finds a page
exactly when it has the key of the page's template, and then the class of that template
with the template's own path. -/
theorem index_of_discovered {d : Disk} {root : Path} {pattern : String} {exclude : List String}
    {skip : List Path} {files : List TemplateFile} {content : TemplateFile → List UInt8}
    {application name : String} {references : List (Except Diagnostic Module)}
    {compiled : Compiled}
    (hdiscover : Project.discover d root pattern exclude skip = .ok files)
    (hsuccess : ∀ f ∈ files,
      (GeneratedUnit.ofBytes application f.relative (content f)).success = true)
    (hcompile : compileUnits name
      (files.map fun f => GeneratedUnit.ofBytes application f.relative (content f)) references
        = .ok compiled) :
    ∃ c index,
      Compilation.ofUnits
        (files.map fun f => GeneratedUnit.ofBytes application f.relative (content f)) references
          = .ok c ∧
      ViewIndex.build compiled.module = .ok index ∧
      (∀ f ∈ files, c.symbols.PageFile (content f) → ∀ q, lookupKey q = lookupKey f.relative →
        ∃ view, index.get? q = some view ∧ view.path? = some f.relative ∧
          view.type.name = Template.className f.relative) ∧
      (∀ q, (∀ f ∈ files, c.symbols.PageFile (content f) → lookupKey q ≠ lookupKey f.relative) →
        index.get? q = none) ∧
      index.size = files.countP fun f => c.symbols.PageFile (content f) := by
  obtain ⟨c, hunits, hyields⟩ := exists_yields_of_compileUnits_eq hcompile
  have hpairs : files.map (fun f => GeneratedUnit.ofBytes application f.relative (content f))
      = (files.map fun f => (f.relative, content f)).map
          fun f => GeneratedUnit.ofBytes application f.1 f.2 := by
    rw [List.map_map]
    rfl
  have hnodup :
      ((files.map fun f => (f.relative, content f)).map fun f => lookupKey f.1).Nodup := by
    rw [List.map_map]
    exact Project.nodup_key_of_discover_eq_ok hdiscover
  obtain ⟨index, hbuild, hfound, hmissing, hsize⟩ :=
    exists_index (List.forall_mem_map.mpr hsuccess) (hpairs ▸ hunits) hyields hnodup
  refine ⟨c, index, hunits, hbuild, ?_, ?_, ?_⟩
  · intro f hf
    exact hfound (f.relative, content f) (List.mem_map.mpr ⟨f, hf, rfl⟩)
  · intro q hq
    exact hmissing q (List.forall_mem_map.mpr hq)
  · rw [hsize, List.countP_map]
    rfl

/-- A disk with one template. -/
theorem index_of_discovered_single :
    let files : List TemplateFile := [{ relative := "a.tpl", path := ⟨Text.utf8 "/a.tpl"⟩ }]
    let units := files.map fun f => GeneratedUnit.ofBytes "app" f.relative (Text.utf8 "x")
    Project.discover { entries := [([Text.utf8 "a.tpl"], .file (Text.utf8 "x"))] }
        ⟨Text.utf8 "/"⟩ "**/*.tpl" [] [] = .ok files ∧
      (∀ f ∈ files, (GeneratedUnit.ofBytes "app" f.relative (Text.utf8 "x")).success = true) ∧
      ∃ compiled c index,
        compileUnits "m" units [.ok Module.host] = .ok compiled ∧
        Compilation.ofUnits units [.ok Module.host] = .ok c ∧
        ViewIndex.build compiled.module = .ok index ∧
        (∀ f ∈ files, c.symbols.PageFile (Text.utf8 "x") →
          ∀ q, lookupKey q = lookupKey f.relative →
            ∃ view, index.get? q = some view ∧ view.path? = some f.relative ∧
              view.type.name = Template.className f.relative) ∧
        (∀ q, (∀ f ∈ files, c.symbols.PageFile (Text.utf8 "x") →
          lookupKey q ≠ lookupKey f.relative) → index.get? q = none) ∧
        index.size = files.countP fun _ => c.symbols.PageFile (Text.utf8 "x") := by
  intro files units
  have hdiscover : Project.discover { entries := [([Text.utf8 "a.tpl"], .file (Text.utf8 "x"))] }
      ⟨Text.utf8 "/"⟩ "**/*.tpl" [] [] = .ok files :=
    eq_ok_of_toOption (by decide +kernel)
  have hsuccess : ∀ f ∈ files,
      (GeneratedUnit.ofBytes "app" f.relative (Text.utf8 "x")).success = true := by
    decide +kernel
  have hok : (compileUnits "m" units [.ok Module.host]).isOk = true := by decide +kernel
  obtain ⟨compiled, hcompile⟩ := exists_ok_of_isOk hok
  obtain ⟨c, index, hindex⟩ := index_of_discovered hdiscover hsuccess hcompile
  exact ⟨hdiscover, hsuccess, compiled, c, index, hcompile, hindex⟩

end ViewPress
