import ViewPress.Project.Build
import ViewPress.Proofs.Replacing

/-!
# What a build writes

A build writes two files into the publish folder, each by way of a temporary sibling. The
debug information goes first and the module last; `publish_cases` says what the folder
holds afterwards, whichever of the steps fails. `Ready` is what a build that succeeded
leaves behind, and it is enough for the next one to succeed with its writes.
-/

namespace ViewPress

namespace Disk

/-- Whether a file is not there, as far as the disk says when it is to be removed. -/
def Lapsed (d : Disk) (names : List Name) : Prop :=
  d.entry? names = none ∨
    d.entry? names ≠ some .directory ∧ d.refuses .remove names = some .notFound

theorem Lapsed.of_entry?_eq {S : List (List Name)} {d d' : Disk} {names : List Name}
    (h : d.Lapsed names) (hsame : d.SameBut S d') (hentry : d'.entry? names = d.entry? names) :
    d'.Lapsed names := by
  rw [Lapsed, hentry, hsame.refuses]
  exact h

theorem Replaceable.of_entry?_eq {S : List (List Name)} {d d' : Disk} {names tmp : List Name}
    (h : d.Replaceable names tmp) (hsame : d.SameBut S d')
    (hfile : d'.entry? names ≠ some .directory) (htemporary : d'.entry? tmp ≠ some .directory) :
    d'.Replaceable names tmp where
  create := ⟨hsame.refuses ▸ h.create.1, htemporary⟩
  write := hsame.refuses ▸ h.write
  rename := ⟨hsame.refuses ▸ h.rename.1, hfile⟩

end Disk

namespace Project

open ViewPress.Disk (Settled temporaryName)

/-! ## The files of a publish folder -/

/-- The name of the module of the precompiled views. -/
def artifactFile : Name :=
  Text.utf8 (Module.artifactName ++ "." ++ Module.libraryExtension)

def debugFile : Name :=
  Text.utf8 (Module.artifactName ++ "." ++ "debug.json")

/-- The module in a publish folder, and its temporary sibling. -/
def artifactNames (dir : List Name) : List (List Name) :=
  [dir ++ [artifactFile], dir ++ [temporaryName artifactFile]]

/-- The debug information in a publish folder, and its temporary sibling. -/
def debugNames (dir : List Name) : List (List Name) :=
  [dir ++ [debugFile], dir ++ [temporaryName debugFile]]

theorem artifactFile_mem (dir : List Name) : dir ++ [artifactFile] ∈ artifactNames dir :=
  List.mem_cons_self

theorem artifactTemporary_mem (dir : List Name) :
    dir ++ [temporaryName artifactFile] ∈ artifactNames dir :=
  List.mem_cons_of_mem _ List.mem_cons_self

theorem debugFile_mem (dir : List Name) : dir ++ [debugFile] ∈ debugNames dir :=
  List.mem_cons_self

theorem debugTemporary_mem (dir : List Name) :
    dir ++ [temporaryName debugFile] ∈ debugNames dir :=
  List.mem_cons_of_mem _ List.mem_cons_self

/-- The names that a build may write in a publish folder. -/
def outputNames (dir : List Name) : List (List Name) :=
  artifactNames dir ++ debugNames dir

theorem notMem_debugNames {dir n : List Name} (h : n ∈ artifactNames dir) :
    n ∉ debugNames dir := by
  have hnames : ∀ file ∈ [artifactFile, temporaryName artifactFile],
      file ∉ [debugFile, temporaryName debugFile] := by
    decide
  have hfile (file : Name) (hfile : file ∈ [artifactFile, temporaryName artifactFile]) :
      dir ++ [file] ∉ debugNames dir := by
    simpa [debugNames] using hnames file hfile
  rcases List.mem_pair.mp h with rfl | rfl
  · exact hfile artifactFile (by simp)
  · exact hfile (temporaryName artifactFile) (by simp)

theorem ne_of_mem_names {dir n m : List Name} (hn : n ∈ artifactNames dir)
    (hm : m ∈ debugNames dir) : n ≠ m :=
  fun heq => notMem_debugNames hn (heq ▸ hm)

theorem dropLast_of_mem_outputNames {dir n : List Name} (h : n ∈ outputNames dir) :
    n.dropLast = dir := by
  simp only [outputNames, artifactNames, debugNames, List.mem_append, List.mem_cons,
    List.not_mem_nil, or_false] at h
  rcases h with (rfl | rfl) | (rfl | rfl) <;> exact List.dropLast_concat

section

variable {d : Disk} {c : Config} {dir : List Name}

theorem sits_artifact (h : d.folder c.target.publishDir = .ok dir) :
    d.Sits c.artifact (dir ++ [artifactFile]) (dir ++ [temporaryName artifactFile]) :=
  Disk.sits_of_folder (n := artifactFile) (by decide) (by decide) h

theorem sits_debugInfo (h : d.folder c.target.publishDir = .ok dir) :
    d.Sits c.debugInfo (dir ++ [debugFile]) (dir ++ [temporaryName debugFile]) :=
  Disk.sits_of_folder (n := debugFile) (by decide) (by decide) h

theorem resolve_artifact_of_unresolved {e : IoError} (h : d.folder c.target.publishDir = .error e) :
    d.resolve (Disk.temporary c.artifact) = .error e := by
  have hpath := Disk.resolve_temporary d c.target.publishDir (n := artifactFile) (by decide)
    (by decide)
  rw [h] at hpath
  exact hpath

theorem resolve_debugInfo_of_unresolved {e : IoError}
    (h : d.folder c.target.publishDir = .error e) :
    d.resolve c.debugInfo = .error e ∧ d.resolve (Disk.temporary c.debugInfo) = .error e := by
  have hpath := Disk.resolve_join_name d c.target.publishDir (n := debugFile) (by decide)
    (by decide)
  have htemporary := Disk.resolve_temporary d c.target.publishDir (n := debugFile) (by decide)
    (by decide)
  rw [h] at hpath htemporary
  exact ⟨hpath, htemporary⟩

/-! ## Single files -/

theorem publishFile_of_replace_ok {p : Path} {content : List UInt8} {d' : Disk}
    (h : d.replace p content = (d', .ok ())) : publishFile d p content = (d', .ok ()) := by
  rw [publishFile, h]
  rfl

theorem publishFile_of_replace_error {p : Path} {content : List UInt8} {d' : Disk} {e : IoError}
    (h : d.replace p content = (d', .error e)) :
    publishFile d p content = (d', .error (.write p (.io p e))) := by
  rw [publishFile, h]
  rfl

theorem removeStale_of_lapsed {p : Path} {names : List Name} (hp : d.resolve p = .ok names)
    (h : d.Lapsed names) : removeStale d p = (d, .ok ()) := by
  rw [removeStale, Disk.removeFile_of_resolve hp]
  rcases h with hgone | ⟨hfile, hrefused⟩
  · rw [hgone]
  · cases hentry : d.entry? names with
    | none => rfl
    | some e =>
        cases e with
        | directory => exact absurd hentry hfile
        | file content =>
            simp only [Disk.refusal, hrefused]
            rfl

theorem removeStale_cases {p : Path} {names : List Name} (hp : d.resolve p = .ok names)
    (hne : names ≠ []) :
    (∃ d', removeStale d p = (d', .ok ()) ∧ d.SameBut [names] d' ∧ d'.Lapsed names) ∨
      ¬ d.Lapsed names ∧ ∃ e, removeStale d p = (d, .error e) := by
  by_cases hlapsed : d.Lapsed names
  · exact .inl ⟨d, removeStale_of_lapsed hp hlapsed, .refl _ d, hlapsed⟩
  · rw [removeStale, Disk.removeFile_of_resolve hp]
    cases hentry : d.entry? names with
    | none => exact absurd (.inl hentry) hlapsed
    | some e =>
        cases e with
        | directory => exact .inr ⟨hlapsed, _, rfl⟩
        | file content =>
            have hfile : d.entry? names ≠ some .directory := by simp [hentry]
            simp only [Disk.refusal]
            cases hrefuses : d.refuses .remove names with
            | none =>
                refine .inl ⟨d.erase names, rfl, .erase hne hfile, .inl ?_⟩
                rw [Disk.entry?_erase hne, if_pos rfl]
            | some e =>
                cases e with
                | notFound => exact absurd (.inr ⟨hfile, hrefuses⟩) hlapsed
                | _ => exact .inr ⟨hlapsed, _, rfl⟩

end

/-! ## Both files -/

/-- The names that a build writes or removes where its debug information goes. -/
def Config.debugWrites (c : Config) (dir : List Name) : List (List Name) :=
  if c.settings.views.debugInfo then debugNames dir else [dir ++ [debugFile]]

/-- The names that a build writes or removes. -/
def Config.writes (c : Config) (dir : List Name) : List (List Name) :=
  artifactNames dir ++ c.debugWrites dir

/-- What a build has done with its debug information. -/
def DebugPublished (d : Disk) (c : Config) (dir : List Name) (compiled : Compiled) : Prop :=
  if c.settings.views.debugInfo then
    d.entry? (dir ++ [debugFile]) = some (.file (Text.utf8 compiled.debug)) ∧
      d.entry? (dir ++ [temporaryName debugFile]) = none
  else d.Lapsed (dir ++ [debugFile])

/-- What lets a build publish its debug information. -/
def DebugReady (d : Disk) (c : Config) (dir : List Name) : Prop :=
  if c.settings.views.debugInfo then
    d.Replaceable (dir ++ [debugFile]) (dir ++ [temporaryName debugFile])
  else d.Lapsed (dir ++ [debugFile])

/-- What lets a build publish what it has compiled. -/
structure Ready (d : Disk) (c : Config) (dir : List Name) : Prop where
  artifact : d.Replaceable (dir ++ [artifactFile]) (dir ++ [temporaryName artifactFile])
  debug : DebugReady d c dir

/-- A disk that lets a build remove what it has just written, and that does not say of a
file that it is missing when it is there. -/
structure Dependable (d : Disk) (c : Config) (dir : List Name) : Prop where
  temporary : ∀ file ∈ [artifactFile, debugFile],
    d.refuses .create (dir ++ [temporaryName file]) = none →
      d.refuses .remove (dir ++ [temporaryName file]) = none
  debug : c.settings.views.debugInfo = true → d.refuses .rename (dir ++ [debugFile]) = none →
    d.refuses .remove (dir ++ [debugFile]) = none
  present : d.refuses .remove (dir ++ [debugFile]) ≠ some .notFound

section

variable {d : Disk} {c : Config} {dir : List Name} {compiled : Compiled}

theorem debugWrites_subset : c.debugWrites dir ⊆ debugNames dir := by
  rw [Config.debugWrites]
  split
  · exact List.Subset.refl _
  · simp [debugNames]

theorem debugFile_mem_debugWrites (c : Config) (dir : List Name) :
    dir ++ [debugFile] ∈ c.debugWrites dir := by
  rw [Config.debugWrites]
  split
  · exact debugFile_mem dir
  · exact List.mem_singleton_self _

theorem writes_subset : c.writes dir ⊆ outputNames dir := by
  intro n hn
  rcases List.mem_append.mp hn with hartifact | hdebug
  · exact List.mem_append_left _ hartifact
  · exact List.mem_append_right _ (debugWrites_subset hdebug)

theorem publishDebug_cases (hdir : d.folder c.target.publishDir = .ok dir) (compiled : Compiled) :
    (∃ d', publishDebug d c compiled = (d', .ok ()) ∧ d.SameBut (c.debugWrites dir) d' ∧
        DebugPublished d' c dir compiled ∧ DebugReady d' c dir ∧
        d.Settled d' (dir ++ [temporaryName debugFile])) ∨
      ¬ DebugReady d c dir ∧ ∃ d' e, publishDebug d c compiled = (d', .error e) ∧
        d.SameBut (c.debugWrites dir) d' ∧
        d'.entry? (dir ++ [debugFile]) = d.entry? (dir ++ [debugFile]) ∧
        (Dependable d c dir → d.Settled d' (dir ++ [temporaryName debugFile])) := by
  have hsits := sits_debugInfo hdir
  simp only [publishDebug, Config.debugWrites, DebugPublished, DebugReady]
  cases hdebug : c.settings.views.debugInfo with
  | true =>
      simp only [if_true]
      rcases Disk.replace_cases hsits (Text.utf8 compiled.debug) with
        ⟨hready, d', heq, hsame, hfile, hgone⟩ | ⟨hnot, d', e, heq, hsame, hsettled⟩
      · refine .inl ⟨d', publishFile_of_replace_ok heq, hsame, ⟨hfile, hgone⟩, ?_, .inl hgone⟩
        exact hready.of_entry?_eq hsame (by simp [hfile]) (by simp [hgone])
      · refine .inr ⟨hnot, d', _, publishFile_of_replace_error heq,
          hsame.mono (by simp [debugNames]), hsame.entry?_eq (by simpa using hsits.ne), fun hd => ?_⟩
        exact hsettled (hd.temporary debugFile (by simp))
  | false =>
      simp only [Bool.false_eq_true, if_false]
      rcases removeStale_cases hsits.file hsits.file_ne_nil with
        ⟨d', heq, hsame, hlapsed⟩ | ⟨hnot, e, heq⟩
      · exact .inl ⟨d', heq, hsame, hlapsed, hlapsed,
          .inr (hsame.entry?_eq (by simpa using hsits.ne.symm))⟩
      · exact .inr ⟨hnot, d, e, heq, .refl _ d, rfl, fun _ => .inr rfl⟩

theorem Dependable.of_refuses_eq {d' : Disk} (h : Dependable d c dir)
    (hrefuses : d'.refuses = d.refuses) : Dependable d' c dir := by
  refine ⟨?_, ?_, ?_⟩ <;> rw [hrefuses]
  · exact h.temporary
  · exact h.debug
  · exact h.present

/-- What becomes of the debug information when a build succeeds. -/
theorem DebugPublished.entry?_eq (hd : Dependable d c dir) (h : DebugPublished d c dir compiled) :
    d.entry? (dir ++ [debugFile])
      = if c.settings.views.debugInfo then some (.file (Text.utf8 compiled.debug)) else none := by
  rw [DebugPublished] at h
  split at h
  · next hdebug => rw [if_pos hdebug, h.1]
  · next hdebug =>
      rw [if_neg hdebug]
      exact h.resolve_right fun hrefused => hd.present hrefused.2

theorem sameBut_rolledBack (hfile : d.resolve c.debugInfo = .ok (dir ++ [debugFile])) :
    d.SameBut [dir ++ [debugFile]]
      (if c.settings.views.debugInfo then d.tryRemove c.debugInfo else d) := by
  split
  · exact Disk.sameBut_tryRemove hfile (by simp)
  · exact .refl _ d

/-- Nothing is left of the debug information when the module could not be written. -/
theorem entry?_debug_rolledBack (hd : Dependable d c dir)
    (hfile : d.resolve c.debugInfo = .ok (dir ++ [debugFile]))
    (hpublished : DebugPublished d c dir compiled) (hready : DebugReady d c dir) :
    Disk.entry? (if c.settings.views.debugInfo then d.tryRemove c.debugInfo else d)
      (dir ++ [debugFile]) = none := by
  cases hdebug : c.settings.views.debugInfo with
  | true =>
      rw [DebugPublished, if_pos hdebug] at hpublished
      rw [DebugReady, if_pos hdebug] at hready
      rw [if_pos rfl, Disk.tryRemove_file hfile hpublished.1 (hd.debug hdebug hready.rename.1),
        Disk.entry?_erase (by simp), if_pos rfl]
  | false =>
      rw [if_neg (by simp), hpublished.entry?_eq hd, if_neg (by simp [hdebug])]

section

variable {S : List (List Name)} {d' : Disk} (hsame : d.SameBut S d')
include hsame

theorem artifact_frame (hS : S ⊆ debugNames dir) {n : List Name} (hn : n ∈ artifactNames dir) :
    d'.entry? n = d.entry? n :=
  hsame.entry?_eq fun hmem => notMem_debugNames hn (hS hmem)

theorem debug_frame (hS : S ⊆ artifactNames dir) {n : List Name} (hn : n ∈ debugNames dir) :
    d'.entry? n = d.entry? n :=
  hsame.entry?_eq fun hmem => notMem_debugNames (hS hmem) hn

theorem DebugPublished.frame (hS : S ⊆ artifactNames dir) (h : DebugPublished d c dir compiled) :
    DebugPublished d' c dir compiled := by
  have hfile := debug_frame hsame hS (debugFile_mem dir)
  rw [DebugPublished] at h ⊢
  split at h
  · next hdebug =>
      rw [if_pos hdebug, hfile, debug_frame hsame hS (debugTemporary_mem dir)]
      exact h
  · next hdebug =>
      rw [if_neg hdebug]
      exact h.of_entry?_eq hsame hfile

theorem DebugReady.frame (hS : S ⊆ artifactNames dir) (h : DebugReady d c dir) :
    DebugReady d' c dir := by
  have hfile := debug_frame hsame hS (debugFile_mem dir)
  rw [DebugReady] at h ⊢
  split at h
  · next hdebug =>
      have htemporary := debug_frame hsame hS (debugTemporary_mem dir)
      rw [if_pos hdebug]
      exact h.of_entry?_eq hsame (hfile ▸ h.rename.2) (htemporary ▸ h.create.2)
  · next hdebug =>
      rw [if_neg hdebug]
      exact h.of_entry?_eq hsame hfile

end

/-- The last part of publishing: the module, and if it cannot be written, what becomes of the
debug information. -/
def publishArtifact (d : Disk) (c : Config) (compiled : Compiled) :
    Disk × Except BuildError Unit :=
  match publishFile d c.artifact compiled.binary with
  | (d, .ok ()) => (d, .ok ())
  | (d, .error e) => (if c.settings.views.debugInfo then d.tryRemove c.debugInfo else d, .error e)

theorem publish_of_publishDebug {d' : Disk} (h : publishDebug d c compiled = (d', .ok ())) :
    publish d c compiled = publishArtifact d' c compiled := by
  rw [publish, h]
  rfl

theorem publishArtifact_cases (hdir : d.folder c.target.publishDir = .ok dir)
    (hpublished : DebugPublished d c dir compiled) (hready : DebugReady d c dir) :
    (∃ d', publishArtifact d c compiled = (d', .ok ()) ∧ d.SameBut (artifactNames dir) d' ∧
        d'.entry? (dir ++ [artifactFile]) = some (.file compiled.binary) ∧
        d'.entry? (dir ++ [temporaryName artifactFile]) = none ∧
        d'.Replaceable (dir ++ [artifactFile]) (dir ++ [temporaryName artifactFile])) ∨
      ¬ d.Replaceable (dir ++ [artifactFile]) (dir ++ [temporaryName artifactFile]) ∧
        ∃ d' e, publishArtifact d c compiled = (d', .error e) ∧
          d.SameBut [dir ++ [temporaryName artifactFile], dir ++ [debugFile]] d' ∧
          (Dependable d c dir → d'.entry? (dir ++ [debugFile]) = none ∧
            d.Settled d' (dir ++ [temporaryName artifactFile])) := by
  have hsits := sits_artifact hdir
  unfold publishArtifact
  rcases Disk.replace_cases hsits compiled.binary with
    ⟨hreplaceable, d', heq, hsame, hfile, hgone⟩ | ⟨hnot, d₁, e, heq, hsame, hsettled⟩
  · simp only [publishFile_of_replace_ok heq]
    exact .inl ⟨d', rfl, hsame, hfile, hgone,
      hreplaceable.of_entry?_eq hsame (by simp [hfile]) (by simp [hgone])⟩
  · simp only [publishFile_of_replace_error heq]
    have hwritten : [dir ++ [temporaryName artifactFile]] ⊆ artifactNames dir := by
      simp [artifactNames]
    have hdebugFile := hsame.resolve (sits_debugInfo hdir).file
    have hback := sameBut_rolledBack hdebugFile
    refine .inr ⟨hnot, _, _, rfl, ?_, fun hd => ⟨?_, ?_⟩⟩
    · exact (hsame.mono (by simp)).trans (hback.mono (by simp))
    · exact entry?_debug_rolledBack (hd.of_refuses_eq hsame.refuses) hdebugFile
        (hpublished.frame hsame hwritten) (hready.frame hsame hwritten)
    · have hkept := artifact_frame hback (by simp [debugNames]) (artifactTemporary_mem dir)
      exact (hsettled (hd.temporary artifactFile (by simp))).trans (.inr hkept)

theorem publish_of_unresolved {e : IoError} (h : d.folder c.target.publishDir = .error e)
    (compiled : Compiled) : ∃ e', publish d c compiled = (d, .error e') := by
  have hartifact : publishFile d c.artifact compiled.binary
      = (d, .error (.write c.artifact (.io c.artifact e))) :=
    publishFile_of_replace_error
      (Disk.replace_of_unresolved (resolve_artifact_of_unresolved h) compiled.binary)
  obtain ⟨hfile, htemporary⟩ := resolve_debugInfo_of_unresolved h
  rw [publish, publishDebug]
  cases c.settings.views.debugInfo with
  | true =>
      simp only [if_true]
      rw [publishFile_of_replace_error (Disk.replace_of_unresolved htemporary _)]
      exact ⟨_, rfl⟩
  | false =>
      -- a folder that is missing has no debug information to remove; then the module fails
      have hremove : d.removeFile c.debugInfo = .error e := by
        rw [Disk.removeFile, Disk.find, hfile]
        rfl
      simp only [Bool.false_eq_true, if_false, removeStale, hremove]
      cases e with
      | notFound =>
          simp only [hartifact]
          exact ⟨_, rfl⟩
      | _ => exact ⟨_, rfl⟩

/-- What publishing comes to. If it fails, the module is as it was, and everything else that
was written is gone. -/
theorem publish_cases (hdir : d.folder c.target.publishDir = .ok dir) (compiled : Compiled) :
    (∃ d', publish d c compiled = (d', .ok ()) ∧ d.SameBut (c.writes dir) d' ∧
        d'.entry? (dir ++ [artifactFile]) = some (.file compiled.binary) ∧
        DebugPublished d' c dir compiled ∧ Ready d' c dir ∧
        d'.entry? (dir ++ [temporaryName artifactFile]) = none ∧
        d.Settled d' (dir ++ [temporaryName debugFile])) ∨
      ¬ Ready d c dir ∧ ∃ d' e, publish d c compiled = (d', .error e) ∧
        d.SameBut (c.writes dir) d' ∧
        d'.entry? (dir ++ [artifactFile]) = d.entry? (dir ++ [artifactFile]) ∧
        (Dependable d c dir → d.Settled d' (dir ++ [debugFile]) ∧
          d.Settled d' (dir ++ [temporaryName artifactFile]) ∧
          d.Settled d' (dir ++ [temporaryName debugFile])) := by
  have hwrites : c.debugWrites dir ⊆ c.writes dir := List.subset_append_right _ _
  rcases publishDebug_cases hdir compiled with
    ⟨d₁, heq, hsame₁, hpublished, hready, hsettled⟩ | ⟨hnot, d₁, e, heq, hsame₁, hfile, hsettled⟩
  all_goals
    have hkept {n : List Name} (hn : n ∈ artifactNames dir) : d₁.entry? n = d.entry? n :=
      artifact_frame hsame₁ debugWrites_subset hn
  · rw [publish_of_publishDebug heq]
    rcases publishArtifact_cases (hsame₁.folder hdir) hpublished hready with
      ⟨d₂, heq₂, hsame₂, hfile, hgone, hagain⟩ | ⟨hnot, d₂, e, heq₂, hsame₂, hclean⟩
    · have hsubset : artifactNames dir ⊆ artifactNames dir := List.Subset.refl _
      refine .inl ⟨d₂, heq₂, ?_, hfile, hpublished.frame hsame₂ hsubset,
        ⟨hagain, hready.frame hsame₂ hsubset⟩, hgone, ?_⟩
      · exact (hsame₁.mono hwrites).trans (hsame₂.mono (List.subset_append_left _ _))
      · exact hsettled.trans (.inr (debug_frame hsame₂ hsubset (debugTemporary_mem dir)))
    · -- the debug information has been written and is taken back, so only its name and the
      -- module's sibling can differ from what was there in between
      have hrest {n : List Name} (hA : n ≠ dir ++ [temporaryName artifactFile])
          (hD : n ≠ dir ++ [debugFile]) : d₂.entry? n = d₁.entry? n :=
        hsame₂.entry?_eq (by simp [hA, hD])
      refine .inr ⟨fun hr => hnot ?_, d₂, e, heq₂, ?_, ?_, fun hd => ?_⟩
      · exact hr.artifact.of_entry?_eq hsame₁ (hkept (artifactFile_mem dir) ▸ hr.artifact.rename.2)
          (hkept (artifactTemporary_mem dir) ▸ hr.artifact.create.2)
      · refine (hsame₁.mono hwrites).trans (hsame₂.mono ?_)
        exact List.cons_subset.mpr ⟨List.mem_append_left _ (artifactTemporary_mem dir),
          List.cons_subset.mpr ⟨hwrites (debugFile_mem_debugWrites c dir), List.nil_subset _⟩⟩
      · have hne := ne_of_mem_names (artifactFile_mem dir) (debugFile_mem dir)
        rw [hrest (sits_artifact hdir).ne hne, hkept (artifactFile_mem dir)]
      · obtain ⟨hgone, htemporary⟩ := hclean (hd.of_refuses_eq hsame₁.refuses)
        refine ⟨.inl hgone, .trans (.inr (hkept (artifactTemporary_mem dir))) htemporary, ?_⟩
        have hne := ne_of_mem_names (artifactTemporary_mem dir) (debugTemporary_mem dir)
        exact hsettled.trans (.inr (hrest hne.symm (sits_debugInfo hdir).ne.symm))
  · have hfailed : publish d c compiled = (d₁, .error e) := by
      rw [publish, heq]
    exact .inr ⟨fun h => hnot h.debug, d₁, e, hfailed, hsame₁.mono hwrites,
      hkept (artifactFile_mem dir),
      fun hd => ⟨.inr hfile, .inr (hkept (artifactTemporary_mem dir)), hsettled hd⟩⟩

end

end Project

end ViewPress
