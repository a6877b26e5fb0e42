import ViewPress.Proofs.BuildHistories
import ViewPress.Proofs.References
import ViewPress.Proofs.Requests

/-!
# Building again

A build reads the folder that it writes: the application's module, the manifest and the
libraries are there, and templates may be. A build that reads none of the files it writes
can be repeated: it finds the same templates and the same references, and so it writes the
same files. Where the files it has written are read by the next one, that need not be so.
-/

namespace ViewPress.Project

open ViewPress.Disk (IsName)

/-! ## Templates -/

section

variable {root : Path} {here : List Name} {skip : List Path}

/-- The relative names of an entry, if it is a file to consider. -/
def candidate? (root : Path) (here : List Name) (skip : List Path) (e : List Name × Entry) :
    Option (List Name) :=
  match here.isPrefixOf? e.1, e.2 with
  | some (n :: names), .file _ =>
      if (n :: names).getLast? != some ignoredName && !isSkipped skip root (n :: names) then
        some (n :: names)
      else none
  | _, _ => none

theorem candidates_eq (d : Disk) :
    candidates d root here skip = d.entries.filterMap (candidate? root here skip) := by
  rw [candidates, Disk.below, List.filterMap_filterMap]
  congr 1
  funext entry
  obtain ⟨key, e⟩ := entry
  simp only [candidate?]
  rcases here.isPrefixOf? key with _ | _ | ⟨n, names⟩
  · rfl
  · rfl
  · cases e <;> rfl

theorem of_candidate?_eq_some {e : List Name × Entry} {names : List Name}
    (h : candidate? root here skip e = some names) :
    e.1 = here ++ names ∧ isSkipped skip root names = false := by
  rw [candidate?] at h
  split at h
  · next hprefix _ =>
      split at h
      · next hkept =>
          cases h
          rw [Bool.and_eq_true, Bool.not_eq_true'] at hkept
          exact ⟨(List.isPrefixOf?_eq_some_iff_append_eq.mp hprefix).symm, hkept.2⟩
      · cases h
  · cases h

/-- The templates that are selected among some entries. -/
def selection (root : Path) (here : List Name) (skip : List Path) (select : TemplateFile → Bool)
    (entries : List (List Name × Entry)) : Except DiscoveryError (List TemplateFile) :=
  ((entries.filterMap (candidate? root here skip)).mapM (templateFile root)).map
    (·.filter select)

section

variable {select : TemplateFile → Bool} {e : List Name × Entry}

theorem selection_cons_of_none (h : candidate? root here skip e = none)
    (entries : List (List Name × Entry)) :
    selection root here skip select (e :: entries) = selection root here skip select entries := by
  rw [selection, List.filterMap_cons_none h, selection]

theorem selection_cons_of_some {names : List Name} (h : candidate? root here skip e = some names)
    (entries : List (List Name × Entry)) :
    selection root here skip select (e :: entries) = (templateFile root names).bind fun t =>
      (selection root here skip select entries).map
        fun rest => if select t then t :: rest else rest := by
  rw [selection, selection, List.filterMap_cons_some h, List.mapM_cons]
  cases templateFile root names with
  | error e => rfl
  | ok t =>
      cases (entries.filterMap (candidate? root here skip)).mapM (templateFile root) with
      | error e => rfl
      | ok ts => exact congrArg Except.ok List.filter_cons

end

/-- Whether a file of the given relative names would be looked at as a template. -/
def seen (root : Path) (skip : List Path) (select : TemplateFile → Bool) (names : List Name) :
    Bool :=
  !isSkipped skip root names &&
    match templateFile root names with
    | .ok t => select t
    | .error _ => true

/-- Entries that would not be looked at can be left out. -/
theorem selection_filter {S : List (List Name)} {select : TemplateFile → Bool}
    (hseen : ∀ names, here ++ names ∈ S → seen root skip select names = false)
    (entries : List (List Name × Entry)) :
    selection root here skip select (entries.filter (·.1 ∉ S))
      = selection root here skip select entries := by
  induction entries with
  | nil => rfl
  | cons e entries ih =>
      by_cases hS : e.1 ∈ S
      · -- the entry is left out on one side and contributes nothing on the other
        rw [List.filter_cons_of_neg (by simpa using hS), ih]
        cases hcandidate : candidate? root here skip e with
        | none => rw [selection_cons_of_none hcandidate]
        | some names =>
            obtain ⟨hnames, hskipped⟩ := of_candidate?_eq_some hcandidate
            have hunseen := hseen names (hnames ▸ hS)
            rw [seen, hskipped, Bool.not_false, Bool.true_and] at hunseen
            rw [selection_cons_of_some hcandidate]
            cases hfile : templateFile root names with
            | error e => simp [hfile] at hunseen
            | ok t =>
                simp only [hfile] at hunseen
                show _ = (selection root here skip select entries).map _
                rw [hunseen]
                cases selection root here skip select entries <;> rfl
      · rw [List.filter_cons_of_pos (by simpa using hS)]
        cases hcandidate : candidate? root here skip e with
        | none => rw [selection_cons_of_none hcandidate, selection_cons_of_none hcandidate, ih]
        | some names =>
            rw [selection_cons_of_some hcandidate, selection_cons_of_some hcandidate, ih]

end

/-- Templates are found again on a disk that differs only in files that are not looked at. -/
theorem discover_eq_of_sameBut {S : List (List Name)} {d d' : Disk} {root : Path}
    {pattern : String} {exclude : List String} {skip : List Path} {files : List TemplateFile}
    (hsame : d.SameBut S d')
    (hseen : ∀ here names, d.resolve root = .ok here → here ++ names ∈ S →
      seen root skip (isSelected pattern exclude) names = false)
    (h : discover d root pattern exclude skip = .ok files) :
    discover d' root pattern exclude skip = .ok files := by
  obtain ⟨here, found, hroot, hfound, hfiles, hnone⟩ := exists_of_discover_eq_ok h
  obtain ⟨hresolve, hdirectory⟩ := Disk.of_find_eq_ok hroot
  have hroot' : d'.find root = .ok (here, .directory) := by
    rw [Disk.find_of_resolve (hsame.resolve hresolve), hsame.directories here hdirectory]
  have hselection : selection root here skip (isSelected pattern exclude) d'.entries
      = selection root here skip (isSelected pattern exclude) d.entries := by
    have hunseen := fun names => hseen here names hresolve
    rw [← selection_filter hunseen d'.entries, hsame.entries, selection_filter hunseen]
  rw [selection, selection, ← candidates_eq, ← candidates_eq, hfound] at hselection
  obtain ⟨found', hfound', hselected⟩ : ∃ found',
      (candidates d' root here skip).mapM (templateFile root) = .ok found' ∧
      found'.filter (isSelected pattern exclude) = found.filter (isSelected pattern exclude) := by
    cases hmapM : (candidates d' root here skip).mapM (templateFile root) with
    | error e =>
        rw [hmapM] at hselection
        cases hselection
    | ok found' =>
        rw [hmapM] at hselection
        exact ⟨found', rfl, Except.ok.inj hselection⟩
  have hlist : (found'.filter (isSelected pattern exclude)).mergeSort TemplateFile.le = files := by
    rw [hselected, hfiles]
  rw [discover, hroot']
  simp only [hfound', bind, Except.bind, hlist, hnone]
  rfl

/-- A template that is found is a file that would be looked at. -/
theorem exists_seen_of_discover {d : Disk} {root : Path} {pattern : String}
    {exclude : List String} {skip : List Path} {files : List TemplateFile} {f : TemplateFile}
    (hdisk : d.WellNamed) (h : discover d root pattern exclude skip = .ok files) (hf : f ∈ files) :
    root.bytes ≠ [] ∧ ∃ names, (∀ n ∈ names, IsName n) ∧
      f.path = names.foldl (fun p n => p.join ⟨n⟩) root ∧
      seen root skip (isSelected pattern exclude) names = true := by
  obtain ⟨here, found, hroot, hfound, hfiles, -⟩ := exists_of_discover_eq_ok h
  obtain ⟨hresolve, -⟩ := Disk.of_find_eq_ok hroot
  rw [hfiles, List.mem_mergeSort, List.mem_filter] at hf
  obtain ⟨names, hnames, hfile⟩ := exists_of_mem_mapM hfound hf.1
  obtain ⟨⟨content, hbelow⟩, -, hskipped⟩ := mem_candidates_iff.mp hnames
  obtain ⟨-, hentry⟩ := mem_below_iff.mp hbelow
  refine ⟨(Disk.exists_walk_of_resolve hresolve).1, names, fun n hn => ?_,
    (templateFile_eq_ok hfile).1, ?_⟩
  · exact hdisk _ hentry n (List.mem_append_right here hn)
  · rw [seen, hskipped, hfile]
    exact hf.2

/-- Whether a build would look at a file of the given relative names as a template. -/
def Config.looksAt (c : Config) (names : List Name) : Bool :=
  seen c.root c.skipDirs (isSelected c.settings.views.pattern c.settings.views.exclude) names

theorem exists_find_of_ofFile_success {application path : String} {d : Disk}
    {location : Path} (h : (GeneratedUnit.ofFile application path d location).success = true) :
    ∃ names e, d.find location = .ok (names, e) := by
  rw [GeneratedUnit.ofFile] at h
  split at h
  · next names e hfind => exact ⟨names, e, hfind⟩
  · cases h

theorem generateUnits_eq_of_sameBut {S : List (List Name)} {d d' : Disk} {c : Config}
    {files : List TemplateFile} (hdisk : d.WellNamed) (hsame : d.SameBut S d')
    (hseen : ∀ here names, d.resolve c.root = .ok here → here ++ names ∈ S →
      c.looksAt names = false)
    (h : discover d c.root c.settings.views.pattern c.settings.views.exclude c.skipDirs = .ok files)
    (hsuccess : ∀ u ∈ generateUnits d c files, u.success = true) :
    generateUnits d' c files = generateUnits d c files := by
  refine List.map_congr_left fun f hf => ?_
  obtain ⟨names, e, hfind⟩ := exists_find_of_ofFile_success
    (hsuccess _ (List.mem_map_of_mem hf))
  obtain ⟨hresolve, -⟩ := Disk.of_find_eq_ok hfind
  have hread : names ∉ S := by
    -- the template was selected, and what is written would not have been
    intro hmem
    obtain ⟨hroot, rest, hnames, hpath, hseen'⟩ := exists_seen_of_discover hdisk h hf
    rw [hpath] at hresolve
    obtain ⟨here, hhere, rfl⟩ := Disk.exists_resolve_of_foldl_join hroot hnames hresolve
    exact absurd (hseen here rest hhere hmem) (by simp [Config.looksAt, hseen'])
  rw [GeneratedUnit.ofFile, GeneratedUnit.ofFile, hsame.find hresolve hread]

/-! ## References -/

section

variable {d d' : Disk} {p : Path}

theorem read_congr (h : d'.find p = d.find p) : d'.read p = d.read p := by
  rw [Disk.read, h, Disk.read]

theorem load_congr (h : d'.find p = d.find p) : Module.load d' p = Module.load d p := by
  rw [Module.load, read_congr h, Module.load]

theorem isFile_congr (h : d'.find p = d.find p) : d'.isFile p = d.isFile p := by
  rw [Disk.isFile, h, Disk.isFile]

theorem exists_resolve_of_isFile (h : d.isFile p = true) : ∃ names, d.resolve p = .ok names := by
  rw [Disk.isFile] at h
  split at h
  · next names _ hfind => exact ⟨names, (Disk.of_find_eq_ok hfind).1⟩
  · cases h

end

/-- The files that a manifest names. -/
def Manifest.paths (base : Path) (manifest : Manifest) : List Path :=
  manifest.libraries.flatMap fun library => library.compile.map (base.child ·)

theorem Manifest.mem_paths {base : Path} {manifest : Manifest} {library : Library} {file : String}
    (hlibrary : library ∈ manifest.libraries) (hfile : file ∈ library.compile) :
    base.child file ∈ manifest.paths base :=
  List.mem_flatMap_of_mem hlibrary (List.mem_map_of_mem hfile)

theorem Manifest.of_files_eq_ok {d : Disk} {base : Path} {manifest : Manifest} {files : List Path}
    (h : manifest.files d base = .ok files) :
    ∀ p ∈ files, p ∈ manifest.paths base ∧ d.isFile p = true := by
  intro p hp
  obtain ⟨lists, hlists, h⟩ := exists_ok_of_bind h
  obtain rfl := Except.ok.inj h
  obtain ⟨list, hlist, hp⟩ := List.mem_flatten.mp hp
  obtain ⟨library, hlibrary, hfiles⟩ := exists_of_mem_mapM hlists hlist
  obtain ⟨file, hfile, hpath⟩ := exists_of_mem_mapM hfiles hp
  simp only at hpath
  split at hpath
  · next hisFile =>
      obtain rfl := Except.ok.inj hpath
      exact ⟨mem_paths hlibrary hfile, hisFile⟩
  · cases hpath

theorem Manifest.files_eq_ok_of_forall {d d' : Disk} {base : Path} {manifest : Manifest}
    {files : List Path}
    (hkept : ∀ p ∈ manifest.paths base, d.isFile p = true → d'.isFile p = true)
    (h : manifest.files d base = .ok files) : manifest.files d' base = .ok files := by
  obtain ⟨lists, hlists, h⟩ := exists_ok_of_bind h
  have hlists' : manifest.libraries.mapM (·.files d' base) = .ok lists := by
    refine mapM_eq_ok_of_forall (fun library hlibrary list hlist => ?_) hlists
    refine mapM_eq_ok_of_forall (fun file hfile path hpath => ?_) hlist
    simp only at hpath ⊢
    split at hpath
    · next hisFile =>
        rw [if_pos (hkept _ (mem_paths hlibrary hfile) hisFile)]
        exact hpath
    · cases hpath
  rw [Manifest.files, hlists']
  exact h

theorem exists_of_resolveReferences_eq_ok {d : Disk} {entry manifestPath : Path}
    {framework : String} {references : List Reference}
    (h : (resolveReferences d entry manifestPath framework).2 = .ok references) :
    d.isFile entry = true ∧ (∃ m, Module.load d entry = .ok m) ∧
      ∃ manifest files, Manifest.load d manifestPath = .ok manifest ∧
        (manifest.getD {}).files d (manifestPath.parent?.getD ⟨[]⟩) = .ok files ∧
        references = (dropRepeated [] (entry :: files)).map .file ++ [.host] := by
  rw [resolveReferences] at h
  split at h
  · cases h
  · next hfile =>
      split at h
      · cases h
      · next m hm =>
          split at h
          · cases h
          · next manifest hmanifest =>
              simp only at h
              cases hfiles : (manifest.getD {}).files d (manifestPath.parent?.getD ⟨[]⟩) with
              | error e =>
                  rw [hfiles] at h
                  cases h
              | ok files =>
                  rw [hfiles] at h
                  exact ⟨by simpa using hfile, ⟨m, hm⟩, manifest, files, hmanifest, hfiles,
                    (Except.ok.inj h).symm⟩

/-- Where a build looks for its references. -/
def Config.consulted (c : Config) (d : Disk) : List Path :=
  c.entryModule :: c.manifest ::
    match Manifest.load d c.manifest with
    | .ok (some manifest) => manifest.paths (c.manifest.parent?.getD ⟨[]⟩)
    | _ => []

theorem Config.mem_consulted {c : Config} {d : Disk} {manifest : Option Manifest}
    (h : Manifest.load d c.manifest = .ok manifest) {p : Path}
    (hp : p ∈ (manifest.getD {}).paths (c.manifest.parent?.getD ⟨[]⟩)) : p ∈ c.consulted d := by
  cases manifest with
  | none => cases hp
  | some manifest =>
      rw [consulted, h]
      exact List.mem_cons_of_mem _ (List.mem_cons_of_mem _ hp)

theorem Config.published_eq (c : Config) (name extension : String) :
    c.published name extension
      = ⟨(c.target.publishDir.join ⟨Text.utf8 (name ++ ".")⟩).bytes ++ Text.utf8 extension⟩ := by
  have hne : Text.utf8 (name ++ ".") ≠ [] := by
    have hdot : Text.utf8 "." ≠ [] := by decide
    simp [Text.utf8_append, hdot]
  rw [← Path.join_append hne, ← Text.utf8_append]
  rfl

/-- The manifest is looked for where the application's module is. -/
theorem Config.exists_resolve_manifest {c : Config} {d : Disk} {names : List Name}
    (h : d.resolve c.entryModule = .ok names) : ∃ names', d.resolve c.manifest = .ok names' := by
  rw [manifest, published_eq]
  rw [entryModule, published_eq] at h
  refine Disk.exists_resolve_of_ending ?_ (by decide) h
  split <;> decide

/-- A disk that differs only in files that no reference leads to has the same references. -/
theorem resolveReferences_of_sameBut {S : List (List Name)} {d d' : Disk} {c : Config}
    {framework : String} {references : List Reference} (hsame : d.SameBut S d')
    (hkept : ∀ p ∈ c.consulted d, ∀ names, d.resolve p = .ok names → names ∉ S)
    (h : (resolveReferences d c.entryModule c.manifest framework).2 = .ok references) :
    (resolveReferences d' c.entryModule c.manifest framework).2 = .ok references ∧
      references.map (·.load d') = references.map (·.load d) := by
  obtain ⟨hentry, ⟨m, hm⟩, manifest, files, hmanifest, hfiles, rfl⟩ :=
    exists_of_resolveReferences_eq_ok h
  have hfind {p : Path} (hp : p ∈ c.consulted d) {names : List Name}
      (hresolve : d.resolve p = .ok names) : d'.find p = d.find p :=
    hsame.find hresolve (hkept p hp names hresolve)
  obtain ⟨names, hnames⟩ := exists_resolve_of_isFile hentry
  have hentryFind := hfind (by simp [Config.consulted]) hnames
  obtain ⟨names', hnames'⟩ := Config.exists_resolve_manifest hnames
  have hmanifestFind := hfind (by simp [Config.consulted]) hnames'
  have hlibraries {p : Path}
      (hp : p ∈ (manifest.getD {}).paths (c.manifest.parent?.getD ⟨[]⟩))
      (hfile : d.isFile p = true) : d'.find p = d.find p := by
    obtain ⟨names, hnames⟩ := exists_resolve_of_isFile hfile
    exact hfind (Config.mem_consulted hmanifest hp) hnames
  have hmanifest' : Manifest.load d' c.manifest = .ok manifest := by
    rw [Manifest.load, Disk.readText, read_congr hmanifestFind, ← Disk.readText, ← Manifest.load,
      hmanifest]
  have hfiles' : (manifest.getD {}).files d' (c.manifest.parent?.getD ⟨[]⟩) = .ok files := by
    refine Manifest.files_eq_ok_of_forall (fun p hp hfile => ?_) hfiles
    rw [isFile_congr (hlibraries hp hfile), hfile]
  constructor
  · rw [resolveReferences, isFile_congr hentryFind, hentry, load_congr hentryFind, hm]
    simp only [hmanifest', hfiles']
    rfl
  · refine List.map_congr_left fun reference hreference => ?_
    cases reference with
    | host => rfl
    | file path =>
        have hmem : path ∈ c.entryModule :: files := by
          have hpath : path ∈ dropRepeated [] (c.entryModule :: files) := by
            simpa using hreference
          exact (dropRepeated_sublist [] _).subset hpath
        have hpathFind : d'.find path = d.find path := by
          rcases List.mem_cons.mp hmem with rfl | hmem
          · exact hentryFind
          · obtain ⟨hpaths, hfile⟩ := Manifest.of_files_eq_ok hfiles path hmem
            exact hlibraries hpaths hfile
        rw [Reference.load, Reference.load, load_congr hpathFind]

/-! ## Whole builds -/

theorem compileProject_eq_ok_iff {d : Disk} {c : Config} {compiled : Compiled} :
    (compileProject d c).2 = .ok compiled ↔ ∃ files references,
      discover d c.root c.settings.views.pattern c.settings.views.exclude c.skipDirs = .ok files ∧
      (∀ u ∈ generateUnits d c files, u.success = true) ∧
      (resolveReferences d c.entryModule c.manifest c.target.framework).2 = .ok references ∧
      compileUnits Module.artifactName (generateUnits d c files) (references.map (·.load d))
        = .ok compiled := by
  rw [compileProject]
  cases hdiscover :
      discover d c.root c.settings.views.pattern c.settings.views.exclude c.skipDirs with
  | error e => simp
  | ok files =>
      simp only
      have hfailed : (generateUnits d c files).filter (!·.success) = [] ↔
          ∀ u ∈ generateUnits d c files, u.success = true := by
        simp [List.filter_eq_nil_iff]
      cases hunits : (generateUnits d c files).filter (!·.success) with
      | cons u us =>
          have hnot : ¬ ∀ u ∈ generateUnits d c files, u.success = true := by
            rw [← hfailed, hunits]
            exact List.cons_ne_nil u us
          constructor
          · intro h
            cases h
          · intro h
            obtain ⟨files', references, heq, hsuccess, -⟩ := h
            obtain rfl := Except.ok.inj heq
            exact absurd hsuccess hnot
      | nil =>
          have hsuccess := hfailed.mp hunits
          cases hreferences :
              (resolveReferences d c.entryModule c.manifest c.target.framework).2 with
          | error e => simp
          | ok references =>
              constructor
              · intro h
                refine ⟨files, references, rfl, hsuccess, rfl, ?_⟩
                cases hcompile : compileUnits Module.artifactName (generateUnits d c files)
                    (references.map (·.load d)) with
                | error e => simp [hcompile, Except.mapError] at h
                | ok compiled' => simpa [hcompile, Except.mapError] using h
              · intro h
                obtain ⟨files', references', heq, -, heq', hcompile⟩ := h
                obtain rfl := Except.ok.inj heq
                obtain rfl := Except.ok.inj heq'
                simp only [hcompile]
                rfl

/-- The names that a build writes or removes. -/
def Config.outputs (c : Config) (d : Disk) : List (List Name) :=
  match d.folder c.target.publishDir with
  | .ok dir => c.writes dir
  | .error _ => []

/-- A build that reads none of the files it writes. No reference leads to one of them, and none
of them would be looked at as a template. -/
structure ReadsNoOutput (d : Disk) (c : Config) : Prop where
  references : ∀ p ∈ c.consulted d, ∀ names, d.resolve p = .ok names → names ∉ c.outputs d
  templates : ∀ here names, d.resolve c.root = .ok here → here ++ names ∈ c.outputs d →
    c.looksAt names = false

theorem compileProject_of_sameBut {d d' : Disk} {c : Config} {compiled : Compiled}
    (hdisk : d.WellNamed) (hreads : ReadsNoOutput d c) (hsame : d.SameBut (c.outputs d) d')
    (h : (compileProject d c).2 = .ok compiled) : (compileProject d' c).2 = .ok compiled := by
  rw [compileProject_eq_ok_iff] at h ⊢
  obtain ⟨files, references, hdiscover, hsuccess, hreferences, hcompile⟩ := h
  have hunits :=
    generateUnits_eq_of_sameBut hdisk hsame hreads.templates hdiscover hsuccess
  obtain ⟨hreferences', hloads⟩ :=
    resolveReferences_of_sameBut hsame hreads.references hreferences
  refine ⟨files, references, discover_eq_of_sameBut hsame hreads.templates hdiscover, ?_,
    hreferences', ?_⟩
  · rw [hunits]
    exact hsuccess
  · rw [hunits, hloads]
    exact hcompile

section

variable {d : Disk} {c : Config} {dir : List Name} {compiled : Compiled}

theorem read_artifact (hdir : d.folder c.target.publishDir = .ok dir) {content : List UInt8}
    (h : d.entry? (dir ++ [artifactFile]) = some (.file content)) :
    d.read c.artifact = .ok content := by
  rw [Disk.read, Disk.find_of_resolve (sits_artifact hdir).file, h]
  rfl

/-- What a build that succeeds has done. -/
theorem exists_of_build_eq_ok {report : BuildReport} (h : (build d c).result = .ok report) :
    ∃ compiled dir, (compileProject d c).2 = .ok compiled ∧ report = c.report compiled.module ∧
      d.folder c.target.publishDir = .ok dir ∧ d.SameBut (c.writes dir) (build d c).disk ∧
      (build d c).disk.entry? (dir ++ [artifactFile]) = some (.file compiled.binary) ∧
      Ready (build d c).disk c dir := by
  cases hcompile : (compileProject d c).2 with
  | error e =>
      rw [(build_of_compile_error hcompile).2] at h
      cases h
  | ok compiled =>
      obtain ⟨hdisk, hresult⟩ := build_of_compile_ok hcompile
      rw [hresult] at h
      rw [hdisk]
      cases hdir : d.folder c.target.publishDir with
      | error e =>
          obtain ⟨e', heq⟩ := publish_of_unresolved hdir compiled
          rw [heq] at h
          cases h
      | ok dir =>
          rcases publish_cases hdir compiled with
            ⟨d', heq, hsame, hfile, -, hready, -⟩ | ⟨-, d', e, heq, -⟩
          · rw [heq] at h ⊢
            exact ⟨compiled, dir, rfl, (Except.ok.inj h).symm, rfl, hsame, hfile, hready⟩
          · rw [heq] at h
            cases h

theorem build_of_ready (hcompile : (compileProject d c).2 = .ok compiled)
    (hdir : d.folder c.target.publishDir = .ok dir) (hready : Ready d c dir) :
    (build d c).result = .ok (c.report compiled.module) ∧
      d.SameBut (c.writes dir) (build d c).disk ∧
      (build d c).disk.entry? (dir ++ [artifactFile]) = some (.file compiled.binary) := by
  obtain ⟨hdisk, hresult⟩ := build_of_compile_ok hcompile
  rw [hdisk, hresult]
  rcases publish_cases hdir compiled with ⟨d', heq, hsame, hfile, -⟩ | ⟨hnot, -⟩
  · rw [heq]
    exact ⟨rfl, hsame, hfile⟩
  · exact absurd hready hnot

end

/-- A published application with a template beside it. -/
def templateApp : Disk where
  entries := ([Text.utf8 "a.tpl"], .file (Text.utf8 "x")) :: publishedApp.entries

/-- The same build with another pattern, which selects the debug information. -/
def jsonConfig : Config :=
  { appConfig with
    settings := { appConfig.settings with views := { pattern := "**/*.json" } } }

/-- An application that has the name of the module of its views, with a template beside it. -/
def sameNameApp : Disk where
  entries :=
    [([Text.utf8 "a.tpl"], .file (Text.utf8 "x")),
      ([artifactFile], .file (Module.encode { name := "shop", types := [] }))]

def sameNameConfig : Config :=
  { appConfig with settings := { project := { name := Module.artifactName } } }

end ViewPress.Project
