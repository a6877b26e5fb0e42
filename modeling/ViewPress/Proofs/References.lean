import ViewPress.Project.References
import ViewPress.Proofs.Outcomes

/-!
# Which references a build has

The references of a build are the application's module, the files that its manifest
declares, and the built-in module. They keep the order in which they are declared, because
the first reference with a type wins; and of paths that are equal up to case the first one
stays. Which it is can be said without a set that is carried along: a path is left out
exactly if an earlier one is equal to it.

What can go wrong is looked at in a fixed order. `FirstFailure` lists the failures, each
with the conditions before it that are met. Every disk either meets all conditions or has
a first failure, and both determine the outcome.
-/

namespace ViewPress

/-! ## Files -/

namespace Disk

variable {d : Disk} {p : Path}

theorem isFile_iff_read : d.isFile p = true ↔ ∃ content, d.read p = .ok content := by
  rw [isFile, read]
  cases d.find p with
  | error e => simp [bind, Except.bind]
  | ok found =>
      obtain ⟨names, e⟩ := found
      cases e with
      | directory => simp [bind, Except.bind]
      | file content => simp [bind, Except.bind, pure, Except.pure]

/-- A text is not found only if there is nothing at its path. -/
theorem readText_eq_notFound_iff :
    d.readText p = .error .notFound ↔ d.find p = .error .notFound := by
  rw [readText, read]
  cases d.find p with
  | error e => simp [bind, Except.bind]
  | ok found =>
      obtain ⟨names, e⟩ := found
      cases e with
      | directory => simp [bind, Except.bind]
      | file content =>
          cases htext : Text.ofUtf8? content <;> simp [bind, Except.bind, pure, Except.pure, htext]

end Disk

theorem Module.load_eq_of_read {d : Disk} {p : Path} {content : List UInt8}
    (h : d.read p = .ok content) : load d p = (decode content).mapError .format := by
  rw [load, h]
  rfl

namespace Project

/-! ## Paths up to case -/

/-- No path before a position of the list is equal to the path there up to case. -/
def isFirst (ps : List Path) (x : Path × Nat) : Bool :=
  (ps.take x.2).all fun q => caseKey q ≠ caseKey x.1

/-- The paths of a list that no earlier one is equal to up to case. -/
def firsts (ps : List Path) : List Path :=
  (ps.zipIdx.filter (isFirst ps)).map Prod.fst

/-- The keys that are carried along are those of the paths before. -/
theorem dropRepeated_eq_filter {seen : List String} {before : List Path}
    (hseen : ∀ key, key ∈ seen ↔ ∃ q ∈ before, caseKey q = key) (ps : List Path) :
    dropRepeated seen ps =
      ((ps.zipIdx before.length).filter (isFirst (before ++ ps))).map Prod.fst := by
  induction ps generalizing seen before with
  | nil => rfl
  | cons p ps ih =>
      have hfirst : isFirst (before ++ p :: ps) (p, before.length)
          = !seen.contains (caseKey p) := by
        rw [isFirst, List.take_left, Bool.eq_iff_iff]
        simp [hseen]
      have hlength : before.length + 1 = (before ++ [p]).length := by
        rw [List.length_append, List.length_singleton]
      rw [dropRepeated, List.zipIdx_cons, List.filter_cons, hfirst, hlength,
        List.append_cons before p ps]
      cases hold : seen.contains (caseKey p) with
      | true =>
          -- `p` is left out, and its key is already there
          have hp : ∃ q ∈ before, caseKey q = caseKey p := (hseen _).mp (by simpa using hold)
          refine ih fun key => ?_
          rw [hseen]
          constructor
          · rintro ⟨q, hq, hkey⟩
            exact ⟨q, List.mem_append_left [p] hq, hkey⟩
          · rintro ⟨q, hq, rfl⟩
            rcases List.mem_append.mp hq with hq | hq
            · exact ⟨q, hq, rfl⟩
            · rwa [List.mem_singleton.mp hq]
      | false =>
          refine congrArg (p :: ·) (ih fun key => ?_)
          simp [hseen, or_comm, eq_comm]

theorem dropRepeated_eq_firsts (ps : List Path) : dropRepeated [] ps = firsts ps := by
  have hseen : ∀ key, key ∈ ([] : List String) ↔ ∃ q ∈ ([] : List Path), caseKey q = key := by simp
  exact dropRepeated_eq_filter hseen ps

theorem dropRepeated_sublist (seen : List String) (ps : List Path) :
    (dropRepeated seen ps).Sublist ps := by
  fun_induction dropRepeated seen ps with
  | case1 => exact .slnil
  | case2 seen p ps _ ih => exact ih.cons p
  | case3 seen p ps _ ih => exact ih.cons_cons p

/-- No two paths that are kept are equal up to case, and none is to what was seen before. -/
theorem dropRepeated_pairwise (seen : List String) (ps : List Path) :
    (∀ p ∈ dropRepeated seen ps, caseKey p ∉ seen) ∧
      (dropRepeated seen ps).Pairwise fun p q => caseKey p ≠ caseKey q := by
  fun_induction dropRepeated seen ps with
  | case1 => exact ⟨nofun, .nil⟩
  | case2 seen p ps _ ih => exact ih
  | case3 seen p ps hnew ih =>
      obtain ⟨hfresh, hpairwise⟩ := ih
      refine ⟨fun q hq => ?_, .cons (fun q hq heq => ?_) hpairwise⟩
      · rcases List.mem_cons.mp hq with rfl | hq
        · simpa using hnew
        · exact fun hmem => hfresh q hq (List.mem_cons_of_mem _ hmem)
      · exact hfresh q hq (heq ▸ List.mem_cons_self)

/-- A path is kept up to case, or was seen before. -/
theorem exists_mem_dropRepeated (seen : List String) {ps : List Path} {p : Path} (hp : p ∈ ps) :
    caseKey p ∈ seen ∨ ∃ q ∈ dropRepeated seen ps, caseKey q = caseKey p := by
  fun_induction dropRepeated seen ps with
  | case1 => cases hp
  | case2 seen q ps hold ih =>
      rcases List.mem_cons.mp hp with rfl | hp
      · exact .inl (by simpa using hold)
      · exact ih hp
  | case3 seen q ps hnew ih =>
      rcases List.mem_cons.mp hp with rfl | hp
      · exact .inr ⟨p, List.mem_cons_self, rfl⟩
      rcases ih hp with hseen | ⟨r, hr, hkey⟩
      · rcases List.mem_cons.mp hseen with hkey | hseen
        · exact .inr ⟨q, List.mem_cons_self, hkey.symm⟩
        · exact .inl hseen
      · exact .inr ⟨r, List.mem_cons_of_mem q hr, hkey⟩

/-- The first path stays; those that follow it keep their order, are different up to case, and
leave none out up to case. -/
theorem exists_firsts_eq_cons (p : Path) (ps : List Path) :
    ∃ more, firsts (p :: ps) = p :: more ∧ more.Sublist ps ∧
      (p :: more).Pairwise (fun q r => caseKey q ≠ caseKey r) ∧
      ∀ q ∈ ps, ∃ r ∈ p :: more, caseKey r = caseKey q := by
  have hcons : dropRepeated [] (p :: ps) = p :: dropRepeated [caseKey p] ps := rfl
  refine ⟨dropRepeated [caseKey p] ps, ?_, dropRepeated_sublist _ _, ?_, fun q hq => ?_⟩
  · rw [← dropRepeated_eq_firsts, hcons]
  · rw [← hcons]
    exact (dropRepeated_pairwise [] (p :: ps)).2
  · rw [← hcons]
    have hkept := exists_mem_dropRepeated [] (List.mem_cons_of_mem p hq)
    exact hkept.resolve_left List.not_mem_nil

/-! ## What a manifest declares -/

/-- The compile files of a manifest in order, below its directory and with their libraries. -/
def Manifest.declared (base : Path) (manifest : Manifest) : List (Library × Path) :=
  manifest.libraries.flatMap fun library =>
    library.compile.map fun file => (library, base.child file)

/-- A declared file, if it exists. -/
def checkFile (d : Disk) (x : Library × Path) : Except ReferenceError Path :=
  if d.isFile x.2 then .ok x.2 else .error (.libraryUnresolved x.1 x.2)

theorem checkFile_of_isFile {d : Disk} {x : Library × Path} (h : d.isFile x.2 = true) :
    checkFile d x = .ok x.2 :=
  if_pos h

theorem checkFile_of_isFile_eq_false {d : Disk} {x : Library × Path} (h : d.isFile x.2 = false) :
    checkFile d x = .error (.libraryUnresolved x.1 x.2) :=
  if_neg (Bool.eq_false_iff.mp h)

theorem Library.files_eq_mapM (d : Disk) (base : Path) (library : Library) :
    library.files d base
      = (library.compile.map fun file => (library, base.child file)).mapM (checkFile d) := by
  rw [files, List.mapM_map]
  rfl

theorem Manifest.files_eq_mapM (d : Disk) (base : Path) (manifest : Manifest) :
    manifest.files d base = (manifest.declared base).mapM (checkFile d) := by
  rw [files, declared]
  induction manifest.libraries with
  | nil => rfl
  | cons library libraries ih =>
      rw [List.mapM_cons, List.flatMap_cons, List.mapM_append, ← Library.files_eq_mapM, ← ih]
      cases library.files d base with
      | error e => rfl
      | ok files =>
          cases libraries.mapM (·.files d base) with
          | error e => rfl
          | ok lists => rfl

/-- What the manifest at a path declares; without a manifest, nothing is. -/
inductive Declares (d : Disk) (manifestPath : Path) : List (Library × Path) → Prop where
  | absent (h : d.find manifestPath = .error .notFound) : Declares d manifestPath []
  | present {text : String} {manifest : Manifest} (hread : d.readText manifestPath = .ok text)
      (hparse : Manifest.ofText? text = some manifest) :
      Declares d manifestPath (manifest.declared (manifestPath.parent?.getD ⟨[]⟩))

theorem Declares.unique {d : Disk} {manifestPath : Path}
    {declared declared' : List (Library × Path)} (h : Declares d manifestPath declared)
    (h' : Declares d manifestPath declared') : declared = declared' := by
  cases h with
  | absent h =>
      cases h' with
      | absent => rfl
      | present hread =>
          rw [Disk.readText_eq_notFound_iff.mpr h] at hread
          cases hread
  | present hread hparse =>
      cases h' with
      | absent h' =>
          rw [Disk.readText_eq_notFound_iff.mpr h'] at hread
          cases hread
      | present hread' hparse' =>
          obtain rfl := Except.ok.inj (hread.symm.trans hread')
          obtain rfl := Option.some.inj (hparse.symm.trans hparse')
          rfl

/-- There is a file at the path, and it holds a module. -/
def HoldsModule (d : Disk) (p : Path) : Prop :=
  ∃ content m, d.read p = .ok content ∧ Module.decode content = .ok m

/-- The first of the conditions that does not hold, in the order in which they are looked at. -/
inductive FirstFailure (d : Disk) (entry manifestPath : Path) : ReferenceError → Prop where
  | entryMissing (hfile : d.isFile entry = false) :
      FirstFailure d entry manifestPath (.entryMissing entry)
  | entryInvalid {content : List UInt8} {e : FormatError} (hread : d.read entry = .ok content)
      (hdecode : Module.decode content = .error e) :
      FirstFailure d entry manifestPath (.entryInvalid entry (.format e))
  | manifestUnreadable {e : IoError} (hentry : HoldsModule d entry)
      (hread : d.readText manifestPath = .error e)
      (hpresent : d.find manifestPath ≠ .error .notFound) :
      FirstFailure d entry manifestPath (.manifestUnreadable manifestPath e)
  | manifestMalformed {text : String} (hentry : HoldsModule d entry)
      (hread : d.readText manifestPath = .ok text) (hparse : Manifest.ofText? text = none) :
      FirstFailure d entry manifestPath (.manifestMalformed manifestPath)
  | libraryUnresolved {before after : List (Library × Path)} {library : Library} {path : Path}
      (hentry : HoldsModule d entry)
      (hdeclares : Declares d manifestPath (before ++ (library, path) :: after))
      (hbefore : ∀ x ∈ before, d.isFile x.2 = true) (hfile : d.isFile path = false) :
      FirstFailure d entry manifestPath (.libraryUnresolved library path)

/-! ## Outcomes -/

section

variable {d : Disk} {entry manifestPath : Path} {declared : List (Library × Path)}

theorem forall_isFile_or_failure (hentry : HoldsModule d entry)
    (hdeclares : Declares d manifestPath declared) :
    (∀ x ∈ declared, d.isFile x.2 = true) ∨ ∃ e, FirstFailure d entry manifestPath e := by
  cases hfind : declared.find? fun x => !d.isFile x.2 with
  | none => exact .inl (by simpa using hfind)
  | some x =>
      obtain ⟨hx, before, after, rfl, hbefore⟩ := List.find?_eq_some_iff_append.mp hfind
      have hbefore : ∀ y ∈ before, d.isFile y.2 = true := by simpa using hbefore
      exact .inr ⟨_, .libraryUnresolved hentry hdeclares hbefore (by simpa using hx)⟩

/-- All conditions are met, or one of them is the first that is not. -/
theorem exists_declares_or_failure (d : Disk) (entry manifestPath : Path) :
    (HoldsModule d entry ∧
      ∃ declared, Declares d manifestPath declared ∧ ∀ x ∈ declared, d.isFile x.2 = true) ∨
      ∃ e, FirstFailure d entry manifestPath e := by
  cases hfile : d.isFile entry with
  | false => exact .inr ⟨_, .entryMissing hfile⟩
  | true =>
      obtain ⟨content, hread⟩ := Disk.isFile_iff_read.mp hfile
      cases hdecode : Module.decode content with
      | error e => exact .inr ⟨_, .entryInvalid hread hdecode⟩
      | ok m =>
          have hentry : HoldsModule d entry := ⟨content, m, hread, hdecode⟩
          cases htext : d.readText manifestPath with
          | error e =>
              by_cases habsent : d.find manifestPath = .error .notFound
              · exact .inl ⟨hentry, [], .absent habsent, nofun⟩
              · exact .inr ⟨_, .manifestUnreadable hentry htext habsent⟩
          | ok text =>
              cases hparse : Manifest.ofText? text with
              | none => exact .inr ⟨_, .manifestMalformed hentry htext hparse⟩
              | some manifest =>
                  have hdeclares := Declares.present htext hparse
                  refine (forall_isFile_or_failure hentry hdeclares).imp (fun hfiles => ?_) id
                  exact ⟨hentry, _, hdeclares, hfiles⟩

theorem Manifest.load_of_declares (h : Declares d manifestPath declared) :
    ∃ manifest, load d manifestPath = .ok manifest ∧
      (manifest.getD {}).declared (manifestPath.parent?.getD ⟨[]⟩) = declared := by
  cases h with
  | absent h => exact ⟨none, by rw [load, Disk.readText_eq_notFound_iff.mpr h], rfl⟩
  | @present text manifest hread hparse =>
      exact ⟨some manifest, by simp only [load, hread, hparse], rfl⟩

theorem HoldsModule.load (h : HoldsModule d entry) : ∃ m, Module.load d entry = .ok m := by
  obtain ⟨content, m, hread, hdecode⟩ := h
  refine ⟨m, ?_⟩
  rw [Module.load_eq_of_read hread, hdecode]
  rfl

theorem HoldsModule.isFile (h : HoldsModule d entry) : d.isFile entry = true := by
  obtain ⟨content, -, hread, -⟩ := h
  exact Disk.isFile_iff_read.mpr ⟨content, hread⟩

/-- Past the application's module, the outcome is that of the declared files. -/
theorem resolveReferences_of_declares (hentry : HoldsModule d entry)
    (hdeclares : Declares d manifestPath declared) (framework : String) :
    (resolveReferences d entry manifestPath framework).2 =
      (declared.mapM (checkFile d)).map fun files =>
        (firsts (entry :: files)).map .file ++ [.host] := by
  obtain ⟨m, hm⟩ := hentry.load
  obtain ⟨manifest, hmanifest, rfl⟩ := Manifest.load_of_declares hdeclares
  rw [resolveReferences, hentry.isFile, hm, hmanifest, ← Manifest.files_eq_mapM]
  simp only [dropRepeated_eq_firsts]
  rfl

theorem resolveReferences_of_load_error {e : ReferenceError} (hentry : HoldsModule d entry)
    (h : Manifest.load d manifestPath = .error e) (framework : String) :
    (resolveReferences d entry manifestPath framework).2 = .error e := by
  obtain ⟨m, hm⟩ := hentry.load
  rw [resolveReferences, hentry.isFile, hm, h]
  rfl

theorem resolveReferences_of_failure {e : ReferenceError}
    (h : FirstFailure d entry manifestPath e) (framework : String) :
    (resolveReferences d entry manifestPath framework).2 = .error e := by
  cases h with
  | entryMissing hfile =>
      rw [resolveReferences, hfile]
      rfl
  | @entryInvalid content e hread hdecode =>
      have hload : Module.load d entry = .error (.format e) := by
        rw [Module.load_eq_of_read hread, hdecode]
        rfl
      rw [resolveReferences, Disk.isFile_iff_read.mpr ⟨content, hread⟩, hload]
      rfl
  | @manifestUnreadable e hentry hread hpresent =>
      have hne : e ≠ .notFound := by
        rintro rfl
        exact hpresent (Disk.readText_eq_notFound_iff.mp hread)
      refine resolveReferences_of_load_error hentry ?_ framework
      rw [Manifest.load, hread]
      cases e with
      | notFound => exact absurd rfl hne
      | notADirectory | isADirectory | invalidData | refused => rfl
  | manifestMalformed hentry hread hparse =>
      refine resolveReferences_of_load_error hentry ?_ framework
      simp only [Manifest.load, hread, hparse]
  | @libraryUnresolved before after library path hentry hdeclares hbefore hfile =>
      have hmissing : checkFile d (library, path) = .error (.libraryUnresolved library path) :=
        checkFile_of_isFile_eq_false hfile
      have hfiles : (before ++ (library, path) :: after).mapM (checkFile d)
          = .error (.libraryUnresolved library path) :=
        mapM_eq_error (fun x hx => checkFile_of_isFile (hbefore x hx)) hmissing
      rw [resolveReferences_of_declares hentry hdeclares, hfiles]
      rfl

theorem resolveReferences_of_isFile (hentry : HoldsModule d entry)
    (hdeclares : Declares d manifestPath declared) (hfiles : ∀ x ∈ declared, d.isFile x.2 = true)
    (framework : String) :
    (resolveReferences d entry manifestPath framework).2 =
      .ok ((firsts (entry :: declared.map Prod.snd)).map .file ++ [.host]) := by
  have hok : declared.mapM (checkFile d) = .ok (declared.map Prod.snd) :=
    mapM_eq_ok_map fun x hx => checkFile_of_isFile (hfiles x hx)
  rw [resolveReferences_of_declares hentry hdeclares, hok]
  rfl

theorem resolveReferences_eq_ok_iff {framework : String} {references : List Reference} :
    (resolveReferences d entry manifestPath framework).2 = .ok references ↔
      HoldsModule d entry ∧ ∃ declared, Declares d manifestPath declared ∧
        (∀ x ∈ declared, d.isFile x.2 = true) ∧
        references = (firsts (entry :: declared.map Prod.snd)).map .file ++ [.host] := by
  constructor
  · intro h
    rcases exists_declares_or_failure d entry manifestPath with
      ⟨hentry, declared, hdeclares, hfiles⟩ | ⟨e, he⟩
    · have hresolve := resolveReferences_of_isFile hentry hdeclares hfiles framework
      exact ⟨hentry, declared, hdeclares, hfiles, Except.ok.inj (h.symm.trans hresolve)⟩
    · cases h.symm.trans (resolveReferences_of_failure he framework)
  · rintro ⟨hentry, declared, hdeclares, hfiles, rfl⟩
    exact resolveReferences_of_isFile hentry hdeclares hfiles framework

theorem resolveReferences_eq_error_iff {framework : String} {e : ReferenceError} :
    (resolveReferences d entry manifestPath framework).2 = .error e ↔
      FirstFailure d entry manifestPath e := by
  constructor
  · intro h
    rcases exists_declares_or_failure d entry manifestPath with
      ⟨hentry, declared, hdeclares, hfiles⟩ | ⟨e', he'⟩
    · cases h.symm.trans (resolveReferences_of_isFile hentry hdeclares hfiles framework)
    · rwa [Except.error.inj (h.symm.trans (resolveReferences_of_failure he' framework))]
  · exact fun h => resolveReferences_of_failure h framework

end

/-- A manifest that names files twice, with other letters. -/
def libraryManifest : String :=
  "\x7b\"libraries\":[\x7b\"name\":\"a\",\"compile\":[\"lib/A.mod\",\"SHOP.mod\"]\x7d,"
    ++ "\x7b\"name\":\"b\",\"compile\":[\"LIB/a.mod\",\"b.mod\"]\x7d]\x7d"

def libraryApp : Disk where
  entries :=
    [([Text.utf8 "shop.mod"], .file (Module.encode { name := "shop", types := [] })),
      ([Text.utf8 "shop.json"], .file (Text.utf8 libraryManifest)),
      ([Text.utf8 "lib"], .directory), ([Text.utf8 "lib", Text.utf8 "A.mod"], .file []),
      ([Text.utf8 "LIB"], .directory), ([Text.utf8 "LIB", Text.utf8 "a.mod"], .file []),
      ([Text.utf8 "SHOP.mod"], .file []), ([Text.utf8 "b.mod"], .file [])]

end Project

end ViewPress
