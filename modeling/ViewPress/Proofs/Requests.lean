import ViewPress.Proofs.ViewLookup
import ViewPress.Proofs.ViewPaths
import ViewPress.Proofs.Walking

/-!
# Requests and the templates they open

A request is read twice. The index and the cache take its lookup key. Compiling on demand
takes its relative path, opens the file of that name and writes the path onto the view.
This file says when the two readings agree.

Reading a path once drops one home marker. A directory that has the name of the marker
leaves another one in front, and then the path on the view has a key of its own.
Opening a file passes over empty pieces and dots, which the key keeps. So a request
finds the template that it opens in an index of the same templates exactly when its
relative path is `Canonical`: neither is there.

The proof compares lengths. The template's path is the relative path without the empty
pieces and the dots, and reading a path never makes it longer. If the keys are equal,
nothing can have been left out.
-/

namespace ViewPress

open ViewPath (Canonical HomeMarked lookupKey)
open ViewEngine (requested)

/-! ## Views compiled on demand -/

theorem Symbols.fst_of_tagged? {symbols : Symbols} {f : String × List UInt8}
    {tagged : String × TypeDef} (h : symbols.tagged? f = some tagged) : tagged.1 = f.1 := by
  obtain ⟨t, -, ht⟩ := Option.bind_eq_some_iff.mp h
  split at ht
  · cases ht
    rfl
  · cases ht

namespace ViewEngine

open Project (TemplateFile)

variable {e : ViewEngine} {d : Disk} {request : String} {view : CompiledView}

theorem exists_of_compileEntry {template : Entry}
    (h : e.compileEntry request template = .ok view) :
    ∃ content compiled, template = .file content ∧
      (GeneratedUnit.ofBytes e.application (requested request) content).success = true ∧
      compileUnits (requested request)
        [GeneratedUnit.ofBytes e.application (requested request) content] [.ok Module.host]
          = .ok compiled ∧
      firstView? compiled.module = some view := by
  cases template with
  | directory => cases h
  | file content =>
      rw [compileEntry, GeneratedUnit.ofEntry] at h
      by_cases hsuccess :
          (GeneratedUnit.ofBytes e.application (requested request) content).success = true
      · simp only [hsuccess, Bool.not_true, if_neg Bool.false_ne_true] at h
        split at h
        · cases h
        · next compiled hcompile =>
            split at h
            · next hview =>
                cases h
                exact ⟨content, compiled, rfl, hsuccess, hcompile, hview⟩
            · cases h
      · simp only [hsuccess, Bool.not_false, if_pos] at h
        cases h

/-- A view that is compiled on demand carries the relative path of its request. -/
theorem path?_of_compileEntry {template : Entry}
    (h : e.compileEntry request template = .ok view) :
    view.path? = some (requested request) := by
  obtain ⟨content, compiled, -, hsuccess, hcompile, hview⟩ := exists_of_compileEntry h
  obtain ⟨c, hunits, hyields⟩ := exists_yields_of_compileUnits_eq hcompile
  obtain ⟨type, htype, rfl⟩ := Option.map_eq_some_iff.mp hview
  have hsome : type.viewPath?.isSome = true := by
    simpa using List.find?_some htype
  obtain ⟨path, hpath⟩ := Option.isSome_iff_exists.mp hsome
  have htagged :
      c.tagged.types.filterMap (fun type => type.viewPath?.map fun path => (path, type))
        = [(requested request, content)].filterMap c.symbols.tagged? :=
    filterMap_types_tagged (List.forall_mem_singleton.mpr hsuccess) hunits hyields.diagnostics
  have hmem : (path, type) ∈ [(requested request, content)].filterMap c.symbols.tagged? := by
    rw [← htagged, List.mem_filterMap]
    refine ⟨type, ?_, by rw [hpath]; rfl⟩
    have hmem := List.mem_of_find?_eq_some htype
    rw [hyields.module] at hmem
    exact hmem
  obtain ⟨f, hf, hfile⟩ := List.mem_filterMap.mp hmem
  obtain rfl := List.mem_singleton.mp hf
  show type.viewPath? = _
  exact hpath.trans (congrArg some (Symbols.fst_of_tagged? hfile))

theorem exists_of_compileOnDemand (h : e.compileOnDemand d request = .ok view) :
    ∃ file names template, e.templatePath? request = some file ∧
      d.find file = .ok (names, template) ∧ e.compileEntry request template = .ok view := by
  unfold compileOnDemand at h
  split at h
  · cases h
  · next file hfile =>
      split at h
      · cases h
      · next names template hfind => exact ⟨file, names, template, hfile, hfind, h⟩

/-- The file that is opened for a request is that of a template. -/
def Opens (e : ViewEngine) (d : Disk) (request : String) (f : TemplateFile) : Prop :=
  ∃ file ∈ e.templatePath? request, ∃ names,
    d.resolve file = .ok names ∧ d.resolve f.path = .ok names

/-- A path that stays below where it starts takes steps, and none of them leads up. -/
theorem steps_of_isContained {p : Path} (h : isContained p = true) :
    p.isAbsolute = false ∧ p.steps ≠ [] ∧ Path.dotDot ∉ p.steps := by
  rw [isContained, Bool.and_eq_true, List.all_eq_true] at h
  obtain ⟨hne, hall⟩ := h
  have habsolute : p.isAbsolute = false := by
    by_contra habsolute
    rw [Bool.not_eq_false] at habsolute
    have hroot := hall .root (by simp [Path.components, habsolute])
    cases hroot
  have hcomponents : p.components = if (Path.split p.bytes).head? = some Path.dot
      then .current :: p.names.map Path.ofPiece else p.names.map Path.ofPiece := by
    rw [Path.components, if_neg (by simp [habsolute])]
    rfl
  refine ⟨habsolute, ?_, ?_⟩
  · intro hsteps
    have hnames : p.names = [] := by
      rw [← Path.filter_steps, hsteps]
      rfl
    have hdot : (Path.split p.bytes).head? ≠ some Path.dot := by
      intro hhead
      have hmem := Path.mem_steps (List.mem_of_head? hhead) (by decide)
      rw [hsteps] at hmem
      cases hmem
    rw [hcomponents, if_neg hdot, hnames] at hne
    cases hne
  · intro hup
    have hname : Path.dotDot ∈ p.names := by
      rw [← Path.filter_steps]
      exact List.mem_filter.mpr ⟨hup, by decide⟩
    have hparent : Path.Component.parent ∈ p.names.map Path.ofPiece :=
      List.mem_map.mpr ⟨Path.dotDot, hname, rfl⟩
    have hmem : Path.Component.parent ∈ p.components := by
      rw [hcomponents]
      split
      · exact List.mem_cons_of_mem _ hparent
      · exact hparent
    have hfalse := hall .parent hmem
    cases hfalse

end ViewEngine

/-! ## Templates below a root -/

namespace Project

variable {d : Disk} {root : Path}

theorem utf8_intercalate (parts : List String) :
    Text.utf8 ("/".intercalate parts) = [Path.slash].intercalate (parts.map Text.utf8) := by
  induction parts with
  | nil => rfl
  | cons s rest ih =>
      cases rest with
      | nil => simp
      | cons t rest =>
          rw [String.intercalate_cons_cons, Text.utf8_append, Text.utf8_append, ih]
          simp only [List.map_cons, List.intercalate_cons_cons]
          rfl

theorem map_utf8_of_mapM {names : List Name} {parts : List String}
    (h : names.mapM Text.ofUtf8? = some parts) : parts.map Text.utf8 = names := by
  induction names generalizing parts with
  | nil =>
      cases h
      rfl
  | cons n names ih =>
      rw [List.mapM_cons] at h
      obtain ⟨s, hs, h⟩ := Option.bind_eq_some_iff.mp h
      obtain ⟨rest, hrest, h⟩ := Option.bind_eq_some_iff.mp h
      cases h
      rw [List.map_cons, Text.utf8_of_ofUtf8? hs, ih hrest]

theorem templateFile_eq_ok {names : List Name} {f : TemplateFile}
    (h : templateFile root names = .ok f) :
    f.path = names.foldl (fun p n => p.join ⟨n⟩) root ∧
      Text.utf8 f.relative = [Path.slash].intercalate names := by
  simp only [templateFile] at h
  split at h
  · next parts hparts =>
      cases h
      refine ⟨rfl, ?_⟩
      rw [utf8_intercalate, map_utf8_of_mapM hparts]
  · cases h

section

variable {here : List Name} {skip : List Path} {names : List Name}

theorem mem_below_iff {e : Entry} :
    (names, e) ∈ d.below here ↔ names ≠ [] ∧ (here ++ names, e) ∈ d.entries := by
  rw [Disk.below, List.mem_filterMap]
  constructor
  · rintro ⟨⟨key, e'⟩, hmem, hkey⟩
    simp only at hkey
    split at hkey
    · next n rest hstart =>
        cases hkey
        rw [List.isPrefixOf?_eq_some_iff_append_eq.mp hstart]
        exact ⟨List.cons_ne_nil n rest, hmem⟩
    · cases hkey
  · rintro ⟨hne, hmem⟩
    obtain ⟨n, rest, rfl⟩ := List.exists_cons_of_ne_nil hne
    have hstart : here.isPrefixOf? (here ++ n :: rest) = some (n :: rest) :=
      List.isPrefixOf?_eq_some_iff_append_eq.mpr rfl
    refine ⟨_, hmem, ?_⟩
    simp only [hstart]

theorem mem_candidates_iff :
    names ∈ candidates d root here skip ↔
      (∃ content, (names, .file content) ∈ d.below here) ∧
        names.getLast? ≠ some ignoredName ∧ isSkipped skip root names = false := by
  rw [candidates, List.mem_filterMap]
  constructor
  · rintro ⟨⟨rest, _ | content⟩, hmem, hrest⟩
    · cases hrest
    · simp only [Option.ite_none_right_eq_some, Option.some_inj] at hrest
      obtain ⟨hkept, rfl⟩ := hrest
      exact ⟨⟨content, hmem⟩, by simpa using hkept⟩
  · rintro ⟨⟨content, hmem⟩, hkept⟩
    refine ⟨_, hmem, ?_⟩
    simp only [Option.ite_none_right_eq_some]
    exact ⟨by simpa using hkept, trivial⟩

end

/-- A template is known by names that lead to it from the root. -/
theorem exists_names_of_discover {pattern : String} {exclude : List String}
    {skip : List Path} {files : List TemplateFile} {f : TemplateFile}
    (hdisk : d.WellNamed) (h : discover d root pattern exclude skip = .ok files) (hf : f ∈ files) :
    root.bytes ≠ [] ∧ ∃ names, names ≠ [] ∧ (∀ n ∈ names, Disk.IsName n) ∧
      f.path = names.foldl (fun p n => p.join ⟨n⟩) root ∧
      Text.utf8 f.relative = [Path.slash].intercalate names := by
  obtain ⟨here, found, hroot, hfound, hfiles, -⟩ := exists_of_discover_eq_ok h
  obtain ⟨hresolve, -⟩ := Disk.of_find_eq_ok hroot
  refine ⟨(Disk.exists_walk_of_resolve hresolve).1, ?_⟩
  rw [hfiles, List.mem_mergeSort] at hf
  obtain ⟨names, hnames, hfile⟩ := exists_of_mem_mapM hfound (List.mem_of_mem_filter hf)
  obtain ⟨hpath, hrelative⟩ := templateFile_eq_ok hfile
  obtain ⟨⟨content, hbelow⟩, -⟩ := mem_candidates_iff.mp hnames
  obtain ⟨hne, hentry⟩ := mem_below_iff.mp hbelow
  refine ⟨names, hne, ?_, hpath, hrelative⟩
  intro n hn
  exact hdisk _ hentry n (List.mem_append_right here hn)

end Project

namespace ViewEngine

open Project (TemplateFile discover)

section

variable {e : ViewEngine} {d : Disk} {request : String} {pattern : String} {exclude : List String}
  {skip : List Path} {files : List TemplateFile} {f : TemplateFile} (hdisk : d.WellNamed)
  (hdiscover : discover d e.contentRoot pattern exclude skip = .ok files) (hf : f ∈ files)
  (hopens : e.Opens d request f)
include hdisk hdiscover hf hopens

/-- A request that opens the file of a template spells the template's path, with empty
pieces and dots between the names. -/
theorem utf8_relative_of_opens :
    (Path.ofString (requested request)).names ≠ [] ∧
      Text.utf8 f.relative
        = [Path.slash].intercalate (Path.ofString (requested request)).names := by
  obtain ⟨hroot, names, hne, hnames, hpath, hrelative⟩ :=
    Project.exists_names_of_discover hdisk hdiscover hf
  obtain ⟨file, hfile, out, hout, hfound⟩ := hopens
  rw [templatePath?] at hfile
  split at hfile
  · next hcontained =>
      obtain rfl := Option.some.inj hfile
      obtain ⟨habsolute, hsteps, hup⟩ := steps_of_isContained hcontained
      obtain ⟨here, hhere, hwalk⟩ := Disk.exists_resolve_of_join hroot habsolute hsteps hout
      rw [hpath] at hfound
      obtain ⟨here', hhere', rfl⟩ := Disk.exists_resolve_of_foldl_join hroot hnames hfound
      obtain rfl := Except.ok.inj (hhere.symm.trans hhere')
      have heq := Disk.eq_append_of_walk hup hwalk
      rw [Path.filter_steps, List.append_cancel_left_eq] at heq
      rw [← heq]
      exact ⟨hne, hrelative⟩
  · cases hfile

theorem requested_eq_relative_of_names
    (h : (Path.ofString (requested request)).names = Path.split (Text.utf8 (requested request))) :
    requested request = f.relative := by
  obtain ⟨-, hrelative⟩ := utf8_relative_of_opens hdisk hdiscover hf hopens
  refine Text.utf8_injective ?_
  rw [hrelative, h, Path.intercalate_split]

/-- Such a request has the key of the template exactly when there is nothing between the
names but single slashes and no home marker in front. -/
theorem lookupKey_eq_iff_of_opens :
    lookupKey request = lookupKey f.relative ↔ Canonical (requested request) := by
  obtain ⟨hne, hrelative⟩ := utf8_relative_of_opens hdisk hdiscover hf hopens
  have heq := requested_eq_relative_of_names hdisk hdiscover hf hopens
  constructor
  · intro hkey
    have hle : (Text.utf8 (requested request)).length ≤ (Text.utf8 f.relative).length := by
      have hsize := congrArg (fun key => Text.byteSize key.toList) hkey
      simp only [ViewPath.byteSize_lookupKey] at hsize
      rw [Text.length_utf8, Text.length_utf8, toList_requested, hsize]
      exact ViewPath.byteSize_relative_le f.relative.toList
    rw [← Path.intercalate_split (Text.utf8 (requested request)), hrelative] at hle
    have hnames := Path.filter_eq_self_of_length_le hne hle
    rw [← heq hnames] at hkey
    refine ⟨?_, (lookupKey_requested_iff request).mp hkey.symm⟩
    intro n hn
    simpa using List.filter_eq_self.mp hnames n hn
  · rintro ⟨hpieces, hmarked⟩
    have hnames := List.filter_eq_self.mpr fun n hn => decide_eq_true (hpieces n hn)
    rw [← heq hnames, (lookupKey_requested_iff request).mpr hmarked]

end

/-- A request finds the view of a template in an index of discovered templates exactly when
it has the template's key. -/
theorem exists_index_of_discover {d : Disk} {root : Path} {pattern : String}
    {exclude : List String} {skip : List Path} {files : List TemplateFile}
    {content : TemplateFile → List UInt8} {application name : String}
    {references : List (Except Diagnostic Module)} {compiled : Compiled}
    (hdiscover : discover d root pattern exclude skip = .ok files)
    (hsuccess : ∀ f ∈ files,
      (GeneratedUnit.ofBytes application f.relative (content f)).success = true)
    (hcompile : compileUnits name
      (files.map fun f => GeneratedUnit.ofBytes application f.relative (content f)) references
        = .ok compiled) :
    ∃ c index,
      Compilation.ofUnits
        (files.map fun f => GeneratedUnit.ofBytes application f.relative (content f)) references
          = .ok c ∧
      ViewIndex.build compiled.module = .ok index ∧
      ∀ f ∈ files, c.symbols.PageFile (content f) → ∀ request,
        (∃ v, index.get? request = some v ∧ v.path? = some f.relative)
          ↔ lookupKey request = lookupKey f.relative := by
  obtain ⟨c, hunits, hyields⟩ := exists_yields_of_compileUnits_eq hcompile
  let pairs := files.map fun f => (f.relative, content f)
  have hpairs : files.map (fun f => GeneratedUnit.ofBytes application f.relative (content f))
      = pairs.map fun f => GeneratedUnit.ofBytes application f.1 f.2 := by
    rw [List.map_map]
    rfl
  have hnodup : (pairs.map fun f => lookupKey f.1).Nodup := by
    rw [List.map_map]
    exact Project.nodup_key_of_discover_eq_ok hdiscover
  obtain ⟨index, hbuild, hfound, hmissing, -⟩ :=
    exists_index (List.forall_mem_map.mpr hsuccess) (hpairs ▸ hunits) hyields hnodup
  refine ⟨c, index, hunits, hbuild, ?_⟩
  intro f hf hpage request
  constructor
  · rintro ⟨v, hv, hpath⟩
    by_contra hkey
    have hnone := hmissing request ?_
    · rw [hv] at hnone
      cases hnone
    · intro g hg hpage' hsame
      obtain ⟨v', hv', hpath', -⟩ := hfound g hg hpage' request hsame
      obtain rfl := Option.some.inj (hv.symm.trans hv')
      rw [Option.some.inj (hpath'.symm.trans hpath)] at hsame
      exact hkey hsame
  · intro hkey
    obtain ⟨v, hv, hpath, -⟩ :=
      hfound (f.relative, content f) (List.mem_map.mpr ⟨f, hf, rfl⟩) hpage request hkey
    exact ⟨v, hv, hpath⟩

/-- A view that is compiled on demand carries the relative path of its request. That path
has the key of the request unless a home marker is left in front of it. An artifact that
is built of the same templates has the template that was opened under the key of the
request exactly when the relative path is canonical, and exactly then the request finds
that template's view there. -/
theorem request_hits_opened_template_iff {e : ViewEngine} {d : Disk} {request : String}
    {view : CompiledView} (hview : e.compileOnDemand d request = .ok view) :
    view.path? = some (requested request) ∧
      (lookupKey (requested request) = lookupKey request
        ↔ ¬ HomeMarked (requested request).toList) ∧
      ∀ (pattern : String) (exclude : List String) (skip : List Path) (files : List TemplateFile)
        (content : TemplateFile → List UInt8) (application name : String)
        (references : List (Except Diagnostic Module)) (compiled : Compiled),
        d.WellNamed → discover d e.contentRoot pattern exclude skip = .ok files →
        (∀ f ∈ files,
          (GeneratedUnit.ofBytes application f.relative (content f)).success = true) →
        compileUnits name
          (files.map fun f => GeneratedUnit.ofBytes application f.relative (content f)) references
            = .ok compiled →
        ∃ c index,
          Compilation.ofUnits
            (files.map fun f => GeneratedUnit.ofBytes application f.relative (content f))
              references = .ok c ∧
          ViewIndex.build compiled.module = .ok index ∧
          ∀ f ∈ files, c.symbols.PageFile (content f) → e.Opens d request f →
            (lookupKey request = lookupKey f.relative ↔ Canonical (requested request)) ∧
            ((∃ v, index.get? request = some v ∧ v.path? = some f.relative)
              ↔ Canonical (requested request)) := by
  obtain ⟨file, names, template, -, -, hentry⟩ := exists_of_compileOnDemand hview
  refine ⟨path?_of_compileEntry hentry, lookupKey_requested_iff request, ?_⟩
  intro pattern exclude skip files content application name references compiled hdisk hdiscover
    hsuccess hcompile
  obtain ⟨c, index, hunits, hbuild, hfinds⟩ :=
    exists_index_of_discover hdiscover hsuccess hcompile
  refine ⟨c, index, hunits, hbuild, ?_⟩
  intro f hf hpage hopens
  have hkey := lookupKey_eq_iff_of_opens hdisk hdiscover hf hopens
  exact ⟨hkey, (hfinds f hf hpage request).trans hkey⟩

/-- A disk with a template in its root. -/
def rootDisk : Disk where
  entries := [([Text.utf8 "a.tpl"], .file (Text.utf8 "x"))]

def rootTemplate : TemplateFile where
  relative := "a.tpl"
  path := ⟨Text.utf8 "/a.tpl"⟩

def rootUnit : GeneratedUnit :=
  GeneratedUnit.ofBytes "app" rootTemplate.relative (Text.utf8 "x")

theorem exists_index_of_rootUnit :
    ∃ c compiled index, Compilation.ofUnits [rootUnit] [.ok Module.host] = .ok c ∧
      c.symbols.PageFile (Text.utf8 "x") ∧
      compileUnits "m" [rootUnit] [.ok Module.host] = .ok compiled ∧
      ViewIndex.build compiled.module = .ok index ∧ index.get? "./a.tpl" = none := by
  have hchain : (do
      let c ← (Compilation.ofUnits [rootUnit] [.ok Module.host]).toOption
      let compiled ← (c.compile "m").toOption
      let index ← (ViewIndex.build compiled.module).toOption
      return decide (c.symbols.PageFile (Text.utf8 "x")) && (index.get? "./a.tpl").isNone)
        = some true := by
    decide +kernel
  obtain ⟨c, hunits, hchain⟩ := Option.bind_eq_some_iff.mp hchain
  obtain ⟨compiled, hcompile, hchain⟩ := Option.bind_eq_some_iff.mp hchain
  obtain ⟨index, hbuild, hchain⟩ := Option.bind_eq_some_iff.mp hchain
  have hfacts := Option.some.inj hchain
  rw [Bool.and_eq_true, decide_eq_true_iff, Option.isNone_iff_eq_none] at hfacts
  refine ⟨c, compiled, index, eq_ok_of_toOption hunits, hfacts.1, ?_, eq_ok_of_toOption hbuild,
    hfacts.2⟩
  rw [compileUnits, eq_ok_of_toOption hunits]
  exact eq_ok_of_toOption hcompile

/-- With a home marker in front the template is opened, and it is found. -/
theorem request_hits_opened_template_home :
    let e : ViewEngine := { contentRoot := ⟨Text.utf8 "/"⟩ }
    Canonical (requested "~/a.tpl") ∧ rootDisk.WellNamed ∧
      discover rootDisk e.contentRoot "**/*.tpl" [] [] = .ok [rootTemplate] ∧
      e.Opens rootDisk "~/a.tpl" rootTemplate ∧
      ∃ view compiled index,
        e.compileOnDemand rootDisk "~/a.tpl" = .ok view ∧ view.path? = some "a.tpl" ∧
        compileUnits "m" [rootUnit] [.ok Module.host] = .ok compiled ∧
        ViewIndex.build compiled.module = .ok index ∧
        ∃ v, index.get? "~/a.tpl" = some v ∧ v.path? = some "a.tpl" := by
  intro e
  have hcanonical : Canonical (requested "~/a.tpl") := by decide +kernel
  have hdisk : rootDisk.WellNamed := by decide +kernel
  have hdiscover : discover rootDisk e.contentRoot "**/*.tpl" [] [] = .ok [rootTemplate] :=
    eq_ok_of_toOption (by decide +kernel)
  have hopens : e.Opens rootDisk "~/a.tpl" rootTemplate :=
    ⟨rootTemplate.path, by decide +kernel, [Text.utf8 "a.tpl"],
      eq_ok_of_toOption (by decide +kernel), eq_ok_of_toOption (by decide +kernel)⟩
  have hviewed : (e.compileOnDemand rootDisk "~/a.tpl").isOk = true := by decide +kernel
  obtain ⟨view, hview⟩ := exists_ok_of_isOk hviewed
  obtain ⟨c', compiled, -, hunits', hpage, hcompile, -⟩ := exists_index_of_rootUnit
  obtain ⟨hpath, -, hbuilt⟩ := request_hits_opened_template_iff hview
  obtain ⟨c, index, hunits, hbuild, hfinds⟩ :=
    hbuilt "**/*.tpl" [] [] [rootTemplate] (fun _ => Text.utf8 "x") "app" "m" [.ok Module.host]
      compiled hdisk hdiscover (by decide +kernel) hcompile
  obtain rfl := Except.ok.inj (hunits'.symm.trans hunits)
  have hhit := (hfinds _ List.mem_cons_self hpage hopens).2.mpr hcanonical
  refine ⟨hcanonical, hdisk, hdiscover, hopens, view, compiled, index, hview, ?_, hcompile, hbuild,
    hhit⟩
  rw [hpath]
  decide +kernel

/-- A disk with a template in a directory that has the name of the home marker. -/
def homeDisk : Disk where
  entries :=
    [([Text.utf8 "~"], .directory), ([Text.utf8 "~", Text.utf8 "a.tpl"], .file (Text.utf8 "x"))]

/-- A request for a template in such a directory has not the key of the path that the view
carries. And a request with a dot in front opens a template that it does not find in the
index. -/
theorem request_misses_opened_template :
    let e : ViewEngine := { contentRoot := ⟨Text.utf8 "/"⟩ }
    (∃ view, e.compileOnDemand homeDisk "~/~/a.tpl" = .ok view ∧
      view.path? = some "~/a.tpl" ∧ lookupKey "~/a.tpl" ≠ lookupKey "~/~/a.tpl") ∧
      discover rootDisk e.contentRoot "**/*.tpl" [] [] = .ok [rootTemplate] ∧
      e.Opens rootDisk "./a.tpl" rootTemplate ∧
      ∃ view compiled index,
        e.compileOnDemand rootDisk "./a.tpl" = .ok view ∧
        compileUnits "m" [rootUnit] [.ok Module.host] = .ok compiled ∧
        ViewIndex.build compiled.module = .ok index ∧ index.get? "./a.tpl" = none := by
  intro e
  have hhome : (e.compileOnDemand homeDisk "~/~/a.tpl").isOk = true := by decide +kernel
  have hopens : e.Opens rootDisk "./a.tpl" rootTemplate :=
    ⟨⟨Text.utf8 "/./a.tpl"⟩, by decide +kernel, [Text.utf8 "a.tpl"],
      eq_ok_of_toOption (by decide +kernel), eq_ok_of_toOption (by decide +kernel)⟩
  have hviewed : (e.compileOnDemand rootDisk "./a.tpl").isOk = true := by decide +kernel
  refine ⟨?_, eq_ok_of_toOption (by decide +kernel), hopens, ?_⟩
  · obtain ⟨view, hview⟩ := exists_ok_of_isOk hhome
    obtain ⟨_, _, _, -, -, hentry⟩ := exists_of_compileOnDemand hview
    refine ⟨view, hview, ?_, by decide +kernel⟩
    rw [path?_of_compileEntry hentry]
    decide +kernel
  · obtain ⟨view, hview⟩ := exists_ok_of_isOk hviewed
    obtain ⟨-, compiled, index, -, -, hcompile, hbuild, hnone⟩ := exists_index_of_rootUnit
    exact ⟨view, compiled, index, hview, hcompile, hbuild, hnone⟩

end ViewEngine

end ViewPress
