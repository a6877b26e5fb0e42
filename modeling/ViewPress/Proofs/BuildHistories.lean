import ViewPress.Proofs.Publishing

/-!
# Histories of builds

Builds that publish into one folder follow one another, and between them everything may
change but the files that builds write there. Whatever fails in any of them, the module in
the folder is the one of the last build that succeeded, and debug information that lies
beside it is of that same build.
-/

namespace ViewPress.Project

open ViewPress.Disk (Settled temporaryName)

/-! ## Single builds -/

section

variable {d : Disk} {c : Config}

theorem build_of_compile_error {e : BuildError} (h : (compileProject d c).2 = .error e) :
    (build d c).disk = d ∧ (build d c).result = .error e := by
  rw [build]
  split
  · next heq =>
      rw [heq] at h
      obtain rfl := Except.error.inj h
      exact ⟨rfl, rfl⟩
  · next heq =>
      rw [heq] at h
      cases h

theorem build_of_compile_ok {compiled : Compiled} (h : (compileProject d c).2 = .ok compiled) :
    (build d c).disk = (publish d c compiled).1 ∧
      (build d c).result = (publish d c compiled).2.map fun _ => c.report compiled.module := by
  rw [build]
  split
  · next heq =>
      rw [heq] at h
      cases h
  · next heq =>
      rw [heq] at h
      obtain rfl := Except.ok.inj h
      split
      · next hpublish => exact ⟨by rw [hpublish], by rw [hpublish]; rfl⟩
      · next hpublish => exact ⟨by rw [hpublish], by rw [hpublish]; rfl⟩

end

/-- A build, with the disk that it meets. -/
structure BuildRun where
  disk : Disk
  config : Config

namespace BuildRun

def outcome (r : BuildRun) : BuildOutcome :=
  build r.disk r.config

/-- What a run has compiled, if it published into a folder and succeeded. -/
def publishedInto? (r : BuildRun) (dir : List Name) : Option Compiled :=
  if (r.disk.folder r.config.target.publishDir).toOption = some dir ∧ r.outcome.result.isOk then
    (compileProject r.disk r.config).2.toOption
  else none

/-- What the disk has to grant a run that publishes into a folder. -/
def Granted (r : BuildRun) (dir : List Name) : Prop :=
  r.disk.folder r.config.target.publishDir = .ok dir → Dependable r.disk r.config dir

variable {r : BuildRun} {dir : List Name}

theorem publishedInto?_eq_none_of_folder_ne
    (h : r.disk.folder r.config.target.publishDir ≠ .ok dir) : r.publishedInto? dir = none :=
  if_neg fun hinto => h (eq_ok_of_toOption hinto.1)

theorem publishedInto?_eq_none_of_error {e : BuildError} (h : r.outcome.result = .error e) :
    r.publishedInto? dir = none :=
  if_neg fun hinto => by simp [h, Except.isOk, Except.toBool] at hinto

theorem publishedInto?_eq_some {compiled : Compiled} {report : BuildReport}
    (hdir : r.disk.folder r.config.target.publishDir = .ok dir)
    (hcompile : (compileProject r.disk r.config).2 = .ok compiled)
    (h : r.outcome.result = .ok report) : r.publishedInto? dir = some compiled := by
  rw [publishedInto?, if_pos ⟨by rw [hdir]; rfl, by rw [h]; rfl⟩, hcompile]
  rfl

/-- A run that does not publish into a folder does not touch it. -/
theorem entry?_of_folder_ne (h : r.disk.folder r.config.target.publishDir ≠ .ok dir)
    {n : List Name} (hn : n ∈ outputNames dir) : r.outcome.disk.entry? n = r.disk.entry? n := by
  cases hcompile : (compileProject r.disk r.config).2 with
  | error e => rw [outcome, (build_of_compile_error hcompile).1]
  | ok compiled =>
      rw [outcome, (build_of_compile_ok hcompile).1]
      cases hdir : r.disk.folder r.config.target.publishDir with
      | error e =>
          obtain ⟨e', heq⟩ := publish_of_unresolved hdir compiled
          rw [heq]
      | ok dir' =>
          -- the names tell the folder they are in
          have hother : n ∉ r.config.writes dir' := by
            intro hmem
            have hdir' := dropLast_of_mem_outputNames (writes_subset hmem)
            rw [dropLast_of_mem_outputNames hn] at hdir'
            exact h (hdir' ▸ hdir)
          rcases publish_cases hdir compiled with
            ⟨d', heq, hsame, -⟩ | ⟨-, d', e, heq, hsame, -⟩
          · rw [heq]
            exact hsame.entry?_eq hother
          · rw [heq]
            exact hsame.entry?_eq hother

/-- What a run does to a folder. It publishes there, or leaves the module and takes away the
debug information at most. -/
theorem outcome_cases (hgranted : r.Granted dir) :
    ((∃ compiled, r.publishedInto? dir = some compiled ∧
        r.outcome.disk.entry? (dir ++ [artifactFile]) = some (.file compiled.binary) ∧
        r.outcome.disk.entry? (dir ++ [debugFile])
          = if r.config.settings.views.debugInfo then some (.file (Text.utf8 compiled.debug))
            else none) ∨
      r.publishedInto? dir = none ∧
        r.outcome.disk.entry? (dir ++ [artifactFile]) = r.disk.entry? (dir ++ [artifactFile]) ∧
        r.disk.Settled r.outcome.disk (dir ++ [debugFile])) ∧
      r.disk.Settled r.outcome.disk (dir ++ [temporaryName artifactFile]) ∧
      r.disk.Settled r.outcome.disk (dir ++ [temporaryName debugFile]) := by
  by_cases hdir : r.disk.folder r.config.target.publishDir = .ok dir
  · have hd := hgranted hdir
    cases hcompile : (compileProject r.disk r.config).2 with
    | error e =>
        obtain ⟨hdisk, hresult⟩ := build_of_compile_error hcompile
        have hsame (n : List Name) : r.outcome.disk.entry? n = r.disk.entry? n := by
          rw [outcome, hdisk]
        exact ⟨.inr ⟨publishedInto?_eq_none_of_error hresult, hsame _, .inr (hsame _)⟩,
          .inr (hsame _), .inr (hsame _)⟩
    | ok compiled =>
        obtain ⟨hdisk, hresult⟩ := build_of_compile_ok hcompile
        rw [show r.outcome.disk = _ from hdisk]
        rcases publish_cases hdir compiled with
          ⟨d', heq, hsame, hfile, hdebug, -, hgone, hsettled⟩ | ⟨-, d', e, heq, -, hfile, hclean⟩
        · rw [heq] at hresult ⊢
          have hdebugFile := hdebug.entry?_eq (hd.of_refuses_eq hsame.refuses)
          exact ⟨.inl ⟨compiled, publishedInto?_eq_some hdir hcompile hresult, hfile, hdebugFile⟩,
            .inl hgone, hsettled⟩
        · rw [heq] at hresult ⊢
          obtain ⟨hdebugFile, hrest⟩ := hclean hd
          exact ⟨.inr ⟨publishedInto?_eq_none_of_error hresult, hfile, hdebugFile⟩, hrest⟩
  · have hsame {n : List Name} (hn : n ∈ outputNames dir) :
        r.outcome.disk.entry? n = r.disk.entry? n :=
      entry?_of_folder_ne hdir hn
    have hartifact : artifactNames dir ⊆ outputNames dir := List.subset_append_left _ _
    have hdebug : debugNames dir ⊆ outputNames dir := List.subset_append_right _ _
    refine ⟨.inr ⟨publishedInto?_eq_none_of_folder_ne hdir, ?_, .inr ?_⟩, .inr ?_, .inr ?_⟩
    · exact hsame (hartifact (artifactFile_mem dir))
    · exact hsame (hdebug (debugFile_mem dir))
    · exact hsame (hartifact (artifactTemporary_mem dir))
    · exact hsame (hdebug (debugTemporary_mem dir))

end BuildRun

/-! ## Histories -/

/-- Nobody else has touched the files that builds write in a folder. -/
def Undisturbed (dir : List Name) (d d' : Disk) : Prop :=
  ∀ n ∈ outputNames dir, d'.entry? n = d.entry? n

/-- The runs so far, the latest first, and the disk that they leave. A run meets any disk and
has any configuration, as long as the files that builds write in a folder are undisturbed. -/
inductive BuildHistory (dir : List Name) (start : Disk) : List BuildRun → Disk → Prop
  | start : BuildHistory dir start [] start
  | run {runs : List BuildRun} {d : Disk} {r : BuildRun} (earlier : BuildHistory dir start runs d)
      (undisturbed : Undisturbed dir d r.disk) (granted : r.Granted dir) :
      BuildHistory dir start (r :: runs) r.outcome.disk

/-- What the last run that published into a folder has compiled. -/
def lastPublished (dir : List Name) (runs : List BuildRun) : Option Compiled :=
  runs.findSome? (·.publishedInto? dir)

/-- The files of a folder are those of one build. -/
structure Consistent (dir : List Name) (last : Option Compiled) (d : Disk) : Prop where
  artifact : d.entry? (dir ++ [artifactFile]) = last.map fun compiled => .file compiled.binary
  debug : ∀ e, d.entry? (dir ++ [debugFile]) = some e →
    ∃ compiled, last = some compiled ∧ e = .file (Text.utf8 compiled.debug)

theorem Consistent.step {dir : List Name} {runs : List BuildRun} {r : BuildRun}
    (h : Consistent dir (lastPublished dir runs) r.disk) (hgranted : r.Granted dir) :
    Consistent dir (lastPublished dir (r :: runs)) r.outcome.disk := by
  rw [lastPublished, List.findSome?_cons]
  rcases (r.outcome_cases hgranted).1 with
    ⟨compiled, hlast, hartifact, hdebug⟩ | ⟨hlast, hartifact, hdebug⟩
  · rw [hlast]
    refine ⟨hartifact, fun e he => ⟨compiled, rfl, ?_⟩⟩
    rw [hdebug] at he
    split at he
    · exact (Option.some.inj he).symm
    · cases he
  · rw [hlast]
    refine ⟨hartifact.trans h.artifact, fun e he => ?_⟩
    rcases hdebug with hgone | hkept
    · rw [hgone] at he
      cases he
    · exact h.debug e (hkept ▸ he)

theorem Consistent.of_undisturbed {dir : List Name} {last : Option Compiled} {d d' : Disk}
    (h : Consistent dir last d) (hsame : Undisturbed dir d d') : Consistent dir last d' := by
  have hartifact := hsame _ (List.mem_append_left _ (artifactFile_mem dir))
  have hdebug := hsame _ (List.mem_append_right _ (debugFile_mem dir))
  exact ⟨hartifact.trans h.artifact, fun e he => h.debug e (hdebug ▸ he)⟩

namespace BuildHistory

variable {dir : List Name} {start d : Disk} {runs : List BuildRun}

theorem consistent (h : BuildHistory dir start runs d) (hstart : Consistent dir none start) :
    Consistent dir (lastPublished dir runs) d := by
  induction h with
  | start => exact hstart
  | run _ undisturbed granted ih => exact (ih.of_undisturbed undisturbed).step granted

/-- A temporary sibling is gone after a run, or it was there before the first. -/
theorem settled (h : BuildHistory dir start runs d) {file : Name}
    (hfile : file ∈ [artifactFile, debugFile]) :
    start.Settled d (dir ++ [temporaryName file]) := by
  induction h with
  | start => exact .inr rfl
  | @run runs d r _ undisturbed granted ih =>
      have hstep : r.disk.Settled r.outcome.disk (dir ++ [temporaryName file]) := by
        obtain ⟨-, hartifact, hdebug⟩ := r.outcome_cases granted
        rcases List.mem_pair.mp hfile with rfl | rfl
        · exact hartifact
        · exact hdebug
      have hmem : dir ++ [temporaryName file] ∈ outputNames dir := by
        rcases List.mem_pair.mp hfile with rfl | rfl
        · exact List.mem_append_left _ (artifactTemporary_mem dir)
        · exact List.mem_append_right _ (debugTemporary_mem dir)
      exact (ih.trans (.inr (undisturbed _ hmem))).trans hstep

/-- After any history of builds, the module in the publish folder is the one of the last build
that succeeded, debug information beside it is of that build, and no temporary sibling is left.
A build that fails before it writes changes nothing. -/
theorem publish_folder_consistent (h : BuildHistory dir start runs d)
    (hartifact : start.entry? (dir ++ [artifactFile]) = none)
    (hdebug : start.entry? (dir ++ [debugFile]) = none) :
    d.entry? (dir ++ [artifactFile])
        = (lastPublished dir runs).map (fun compiled => .file compiled.binary) ∧
      (∀ e, d.entry? (dir ++ [debugFile]) = some e →
        ∃ compiled, lastPublished dir runs = some compiled ∧
          e = .file (Text.utf8 compiled.debug)) ∧
      (∀ r ∈ runs.head?, ∀ compiled, r.publishedInto? dir = some compiled →
        d.entry? (dir ++ [debugFile])
          = if r.config.settings.views.debugInfo then some (.file (Text.utf8 compiled.debug))
            else none) ∧
      (∀ file ∈ [artifactFile, debugFile],
        d.entry? (dir ++ [temporaryName file]) = none ∨
          d.entry? (dir ++ [temporaryName file]) = start.entry? (dir ++ [temporaryName file])) ∧
      ∀ r ∈ runs, ∀ e, (compileProject r.disk r.config).2 = .error e →
        r.outcome.disk = r.disk ∧ r.outcome.result = .error e := by
  have hstart : Consistent dir none start := by
    refine ⟨hartifact, fun e he => ?_⟩
    rw [hdebug] at he
    cases he
  obtain ⟨hlast, hof⟩ := h.consistent hstart
  refine ⟨hlast, hof, ?_, fun file hfile => h.settled hfile, fun r _ e => build_of_compile_error⟩
  intro r hr compiled hcompiled
  cases h with
  | start => cases hr
  | @run runs d r _ _ granted =>
      obtain rfl := Option.some.inj hr
      rcases (r.outcome_cases granted).1 with ⟨compiled', hlast', -, hfile⟩ | ⟨hnone, -⟩
      · rw [hcompiled] at hlast'
        obtain rfl := Option.some.inj hlast'
        exact hfile
      · rw [hcompiled] at hnone
        cases hnone

end BuildHistory

/-! ## A failed build after one that succeeded -/

/-- A disk with a published application and nothing else. -/
def publishedApp : Disk where
  entries := [([Text.utf8 "shop.mod"], .file (Module.encode { name := "shop", types := [] }))]

def appConfig : Config where
  settings := { project := { name := "shop" } }
  root := ⟨Text.utf8 "/"⟩
  target := { publishDir := ⟨Text.utf8 "/"⟩, framework := "net1" }

/-- A build that succeeds. -/
def firstRun : BuildRun where
  disk := publishedApp
  config := appConfig

/-- The next build, which cannot move its module into place. -/
def failedRun : BuildRun where
  disk :=
    { firstRun.outcome.disk with
      refuses := fun op names =>
        if op = .rename ∧ names = [artifactFile] then some (.refused "disk full") else none }
  config := appConfig

theorem publish_folder_consistent_failedRun :
    BuildHistory [] publishedApp [failedRun, firstRun] failedRun.outcome.disk ∧
      publishedApp.entry? [artifactFile] = none ∧ publishedApp.entry? [debugFile] = none ∧
      failedRun.publishedInto? [] = none ∧
      ∃ compiled, firstRun.publishedInto? [] = some compiled ∧
        failedRun.outcome.disk.entry? [artifactFile] = some (.file compiled.binary) ∧
        (∀ e, failedRun.outcome.disk.entry? [debugFile] = some e →
          e = .file (Text.utf8 compiled.debug)) ∧
        failedRun.outcome.disk.entry? [temporaryName artifactFile] = none := by
  have hfirst : BuildHistory [] publishedApp [firstRun] firstRun.outcome.disk := by
    refine .run .start (fun n _ => rfl) fun _ => ⟨fun _ _ _ => rfl, fun _ _ => rfl, ?_⟩
    exact nofun
  have hhistory : BuildHistory [] publishedApp [failedRun, firstRun] failedRun.outcome.disk := by
    refine .run hfirst (fun n _ => rfl) fun _ => ⟨fun _ _ _ => rfl, fun _ _ => rfl, ?_⟩
    exact nofun
  have hartifact : publishedApp.entry? [artifactFile] = none := by decide +kernel
  have hdebug : publishedApp.entry? [debugFile] = none := by decide +kernel
  have htemporary : publishedApp.entry? [temporaryName artifactFile] = none := by decide +kernel
  have hsucceeds : (firstRun.publishedInto? []).isSome = true := by decide +kernel
  have hfails : (failedRun.publishedInto? []).isNone = true := by decide +kernel
  obtain ⟨compiled, hcompiled⟩ := Option.isSome_iff_exists.mp hsucceeds
  rw [Option.isNone_iff_eq_none] at hfails
  have hlast : lastPublished [] [failedRun, firstRun] = some compiled := by
    rw [lastPublished, List.findSome?_cons, hfails, List.findSome?_cons, hcompiled]
  obtain ⟨hkept, hof, -, hgone, -⟩ := hhistory.publish_folder_consistent hartifact hdebug
  rw [hlast] at hkept hof
  refine ⟨hhistory, hartifact, hdebug, hfails, compiled, hcompiled, hkept, fun e he => ?_, ?_⟩
  · obtain ⟨compiled', hsame, hfile⟩ := hof e he
    rw [hfile, Option.some.inj hsame]
  · have hcases := hgone artifactFile List.mem_cons_self
    rw [List.nil_append, htemporary, or_self] at hcases
    exact hcases

end ViewPress.Project
