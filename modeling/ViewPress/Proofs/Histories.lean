import Mathlib.Data.List.Induction
import ViewPress.View.Engine

/-!
# What a history of requests says

An engine is asked for views while the files below it change and while precompiled
views are registered, in any order. This file says what each request should find, as
a function of what has happened before it and without caches.

The artifact counts as it was at one moment, the first lookup after the first
registration. A view that it has is found from then on. Any other request finds the
view that was compiled first for its key, whenever that was, and if none was the one
that its template compiles to now. A request that fails leaves nothing behind, and an
artifact that cannot be loaded is as good as none.
-/

namespace ViewPress

open ViewPath (lookupKey)

/-! ## Actions -/

/-- What can happen to an engine and to the disk that it reads. -/
inductive Action where
  | find (path : String)
  | render (path : String) (model : Json)
  | register (loader : ModuleLoader)
  | change (disk : Disk)

inductive Answer where
  | done
  | view (result : Except ViewError CompiledView)
  | html (result : Except ViewError String)

namespace Action

/-- The path that is looked up. -/
def path? : Action → Option String
  | .find path | .render path _ => some path
  | .register _ | .change _ => none

/-- The answer, given the outcome of every lookup. -/
def answer (lookup : String → Except ViewError CompiledView) : Action → Answer
  | .find path => .view (lookup path)
  | .render path model => .html ((lookup path).map (·.render model))
  | .register _ | .change _ => .done

end Action

/-! ## What a history says -/

/-- The state that an attempt to load leaves. -/
def Precompiled.ofOutcome : Except LoadError ViewIndex → Precompiled
  | .ok index => .loaded index
  | .error _ => .failed

/-- Actions in the order in which they happened. -/
abbrev History := List Action

namespace History

/-- The disk that a history leaves. -/
def disk (start : Disk) : History → Disk
  | [] => start
  | .change d :: rest => disk d rest
  | .find _ :: rest | .render _ _ :: rest | .register _ :: rest => disk start rest

/-- The disk at the first lookup. -/
def firstLookup? (start : Disk) : History → Option Disk
  | [] => none
  | .find _ :: _ | .render _ _ :: _ => some start
  | .change d :: rest => firstLookup? d rest
  | .register _ :: rest => firstLookup? start rest

/-- The loader that is registered first. -/
def loader? : History → Option ModuleLoader
  | [] => none
  | .register loader :: _ => some loader
  | .find _ :: rest | .render _ _ :: rest | .change _ :: rest => loader? rest

/-- The one reading of the artifact: with the loader that is registered first, from the disk
at the first lookup after that. -/
def reading? (start : Disk) : History → Option (ModuleLoader × Disk)
  | [] => none
  | .register loader :: rest => (firstLookup? start rest).map (loader, ·)
  | .change d :: rest => reading? d rest
  | .find _ :: rest | .render _ _ :: rest => reading? start rest

/-- The loader that was registered first and the state of its views. -/
def precompiled (start : Disk) (h : History) : Option (ModuleLoader × Precompiled) :=
  h.loader?.map fun loader =>
    (loader,
      match h.reading? start with
      | none => .unloaded
      | some (loader, d) => .ofOutcome (loader.loadIndex d))

def status (start : Disk) (h : History) : Option Precompiled :=
  (h.precompiled start).map Prod.snd

def index? (start : Disk) (h : History) : Option ViewIndex :=
  (h.status start).bind Precompiled.index?

/-- The lines that are logged: what is said about the reading of the artifact. -/
def log (start : Disk) (h : History) : List Console.Event :=
  match h.reading? start with
  | none => []
  | some (loader, d) => (Precompiled.unloaded.load loader d).1

/-- The view that the index has for a path when it is looked up after a history. -/
def indexed? (start : Disk) (h : History) (path : String) : Option CompiledView :=
  (index? start (h ++ [Action.find path])).bind (·.get? path)

/-- All actions, each with what happened before it. -/
def moments (before : History) : History → List (History × Action)
  | [] => []
  | a :: rest => (before, a) :: moments (before ++ [a]) rest

/-- What an action compiles on demand, if it is a lookup for the key of a path. -/
def compiledAt? (root : Path) (start : Disk) (path : String) (before : History) (a : Action) :
    Option CompiledView :=
  a.path?.bind fun q =>
    if lookupKey q = lookupKey path ∧ (before.indexed? start q).isNone then
      (ViewEngine.compileOnDemand { contentRoot := root } (before.disk start) q).toOption
    else none

/-- The view of the first successful compilation on demand for the key of a path. -/
def compiled? (root : Path) (start : Disk) (h : History) (path : String) : Option CompiledView :=
  (moments [] h).findSome? fun (before, a) => compiledAt? root start path before a

/-- What a lookup finds after a history. -/
def lookup (root : Path) (start : Disk) (h : History) (path : String) :
    Except ViewError CompiledView :=
  match h.indexed? start path with
  | some v => .ok v
  | none =>
      match h.compiled? root start path with
      | some v => .ok v
      | none => ViewEngine.compileOnDemand { contentRoot := root } (h.disk start) path

end History

/-! ## Histories that go on -/

namespace History

variable {start : Disk} {h later : History}

theorem disk_append : (h ++ later).disk start = later.disk (h.disk start) := by
  induction h generalizing start with
  | nil => rfl
  | cons a rest ih => cases a <;> exact ih

theorem firstLookup?_append :
    (h ++ later).firstLookup? start
      = (h.firstLookup? start).or (later.firstLookup? (h.disk start)) := by
  induction h generalizing start with
  | nil => rfl
  | cons a rest ih =>
      cases a with
      | find path => rfl
      | render path model => rfl
      | register loader => exact ih
      | change d => exact ih

theorem loader?_append : (h ++ later).loader? = h.loader?.or later.loader? := by
  induction h with
  | nil => rfl
  | cons a rest ih =>
      cases a with
      | find path => exact ih
      | render path model => exact ih
      | register loader => rfl
      | change d => exact ih

/-- If the artifact has not been read by then, it is at the first lookup that follows. -/
theorem reading?_append :
    (h ++ later).reading? start
      = (h.reading? start).or
          (match h.loader? with
          | some loader => (later.firstLookup? (h.disk start)).map (loader, ·)
          | none => later.reading? (h.disk start)) := by
  induction h generalizing start with
  | nil => rfl
  | cons a rest ih =>
      cases a with
      | find path => exact ih
      | render path model => exact ih
      | register loader =>
          simp only [List.cons_append, reading?, loader?, firstLookup?_append, disk]
          cases firstLookup? start rest <;> rfl
      | change d => exact ih

end History

/-! ## Loading -/

namespace Precompiled

theorem load_unloaded (loader : ModuleLoader) (d : Disk) :
    (unloaded.load loader d).2 = .ofOutcome (loader.loadIndex d) := by
  rw [load]
  cases loader.loadIndex d <;> rfl

/-- An attempt to load says one line. -/
theorem length_log_load_unloaded (loader : ModuleLoader) (d : Disk) :
    (unloaded.load loader d).1.length = 1 := by
  rw [load]
  cases loader.loadIndex d <;> rfl

theorem ofOutcome_ne_unloaded (outcome : Except LoadError ViewIndex) :
    ofOutcome outcome ≠ .unloaded := by
  cases outcome <;> exact Precompiled.noConfusion

theorem load_ne_unloaded (state : Precompiled) (loader : ModuleLoader) (d : Disk) :
    (state.load loader d).2 ≠ .unloaded := by
  cases state with
  | unloaded =>
      rw [load_unloaded]
      exact ofOutcome_ne_unloaded _
  | loaded index => exact Precompiled.noConfusion
  | failed => exact Precompiled.noConfusion

/-- What has been loaded, or has failed to, is not loaded again. -/
theorem load_of_ne_unloaded {state : Precompiled} (h : state ≠ .unloaded)
    (loader : ModuleLoader) (d : Disk) : state.load loader d = ([], state) := by
  cases state with
  | unloaded => exact absurd rfl h
  | loaded index => rfl
  | failed => rfl

end Precompiled

namespace ViewCache

/-- Precompiled views after a lookup. -/
def loaded (p : Option (ModuleLoader × Precompiled)) (d : Disk) :
    Option (ModuleLoader × Precompiled) :=
  p.map fun (loader, state) => (loader, (state.load loader d).2)

/-- What a lookup logs. -/
def loadLog (p : Option (ModuleLoader × Precompiled)) (d : Disk) : List Console.Event :=
  p.elim [] fun (loader, state) => (state.load loader d).1

end ViewCache

namespace History

open ViewCache (loaded loadLog)

variable {start : Disk} {h later : History} {a : Action}

theorem reading?_eq_none (hloader : h.loader? = none) : h.reading? start = none := by
  induction h generalizing start with
  | nil => rfl
  | cons a rest ih =>
      cases a with
      | find path => exact ih hloader
      | render path model => exact ih hloader
      | register loader => cases hloader
      | change d => exact ih hloader

theorem loader?_lookup (ha : a.path?.isSome) : loader? (h ++ [a]) = h.loader? := by
  rw [loader?_append]
  cases a with
  | find path => exact Option.or_none
  | render path model => exact Option.or_none
  | register loader => cases ha
  | change d => cases ha

theorem reading?_lookup (ha : a.path?.isSome) :
    reading? start (h ++ [a])
      = (h.reading? start).or (h.loader?.map (·, h.disk start)) := by
  rw [reading?_append]
  cases a with
  | find path => cases h.loader? <;> rfl
  | render path model => cases h.loader? <;> rfl
  | register loader => cases ha
  | change d => cases ha

theorem reading?_other (ha : a.path? = none) :
    reading? start (h ++ [a]) = h.reading? start := by
  rw [reading?_append]
  cases a with
  | find path => cases ha
  | render path model => cases ha
  | register loader => cases h.loader? <;> exact Option.or_none
  | change d => cases h.loader? <;> exact Option.or_none

/-- A lookup loads what is not loaded yet. -/
theorem precompiled_lookup (ha : a.path?.isSome) :
    precompiled start (h ++ [a]) = loaded (h.precompiled start) (h.disk start) := by
  rw [precompiled, precompiled, loader?_lookup ha, reading?_lookup ha]
  cases h.loader? with
  | none => rfl
  | some loader =>
      cases h.reading? start with
      | none => simp only [loaded, Option.map_some, Option.none_or, Precompiled.load_unloaded]
      | some r =>
          simp only [loaded, Option.map_some, Option.some_or]
          rw [Precompiled.load_of_ne_unloaded (Precompiled.ofOutcome_ne_unloaded _)]

theorem log_lookup (ha : a.path?.isSome) :
    log start (h ++ [a]) = h.log start ++ loadLog (h.precompiled start) (h.disk start) := by
  rw [log, log, reading?_lookup ha, precompiled]
  cases h.reading? start with
  | none => cases h.loader? <;> rfl
  | some r =>
      cases h.loader? with
      | none => exact (List.append_nil _).symm
      | some loader =>
          simp only [Option.some_or, loadLog, Option.map_some, Option.elim_some]
          rw [Precompiled.load_of_ne_unloaded (Precompiled.ofOutcome_ne_unloaded _),
            List.append_nil]

theorem log_other (ha : a.path? = none) : log start (h ++ [a]) = h.log start := by
  rw [log, log, reading?_other ha]

theorem precompiled_register (loader : ModuleLoader) :
    precompiled start (h ++ [Action.register loader])
      = (h.precompiled start).or (some (loader, .unloaded)) := by
  rw [precompiled, precompiled, reading?_other rfl, loader?_append]
  cases hloader : h.loader? with
  | some first => rfl
  | none =>
      rw [reading?_eq_none hloader]
      rfl

theorem precompiled_change (d : Disk) :
    precompiled start (h ++ [Action.change d]) = h.precompiled start := by
  rw [precompiled, precompiled, reading?_other rfl, loader?_append]
  exact congrArg (Option.map _) Option.or_none

theorem moments_concat (before : History) :
    moments before (h ++ [a]) = moments before h ++ [(before ++ h, a)] := by
  induction h generalizing before with
  | nil => simp [moments]
  | cons b rest ih => simp [moments, ih]

theorem compiled?_concat {root : Path} {path : String} :
    compiled? root start (h ++ [a]) path
      = (h.compiled? root start path).or (compiledAt? root start path h a) := by
  rw [compiled?, moments_concat, List.findSome?_append, compiled?]
  simp

theorem compiledAt?_lookup {root : Path} {path q : String} (ha : a.path? = some path) :
    compiledAt? root start q h a
      = if lookupKey path = lookupKey q ∧ (h.indexed? start path).isNone then
          (ViewEngine.compileOnDemand { contentRoot := root } (h.disk start) path).toOption
        else none := by
  rw [compiledAt?, ha]
  rfl

theorem compiled?_eq_of_key_eq {root : Path} {path q : String}
    (hkey : lookupKey path = lookupKey q) :
    h.compiled? root start path = h.compiled? root start q := by
  simp only [compiled?, compiledAt?, hkey]

end History

/-! ## One reading -/

namespace History

variable {start : Disk} {h : History} {a : Action} {root : Path} {path : String}

/-- Once the artifact has been read nothing changes what is known of it. -/
theorem precompiled_append (hread : (h.reading? start).isSome) (later : History) :
    precompiled start (h ++ later) = h.precompiled start := by
  obtain ⟨r, hr⟩ := Option.isSome_iff_exists.mp hread
  cases hloader : h.loader? with
  | none =>
      rw [reading?_eq_none hloader] at hr
      cases hr
  | some loader =>
      rw [precompiled, precompiled, loader?_append, reading?_append, hloader, hr, Option.some_or,
        Option.some_or]

theorem log_append (hread : (h.reading? start).isSome) (later : History) :
    log start (h ++ later) = h.log start := by
  obtain ⟨r, hr⟩ := Option.isSome_iff_exists.mp hread
  rw [log, log, reading?_append, hr, Option.some_or]

theorem length_log_le (start : Disk) (h : History) : (h.log start).length ≤ 1 := by
  rw [log]
  split
  · exact Nat.zero_le 1
  · exact Nat.le_of_eq (Precompiled.length_log_load_unloaded _ _)

/-! ## Without precompiled views -/

/-- The history without its registrations. -/
def unregistered (h : History) : History :=
  h.filter fun
    | .register _ => false
    | _ => true

theorem loader?_unregistered (h : History) : h.unregistered.loader? = none := by
  induction h with
  | nil => rfl
  | cons a rest ih => cases a <;> exact ih

theorem disk_unregistered (start : Disk) (h : History) :
    h.unregistered.disk start = h.disk start := by
  induction h generalizing start with
  | nil => rfl
  | cons a rest ih => cases a <;> exact ih _

theorem indexed?_eq_none (hindex : index? start (h ++ [a]) = none) (ha : a.path?.isSome) :
    h.indexed? start path = none := by
  have hsame : index? start (h ++ [.find path]) = index? start (h ++ [a]) := by
    rw [index?, index?, status, status, precompiled_lookup ha, precompiled_lookup rfl]
  rw [indexed?, hsame, hindex, Option.bind_none]

theorem indexed?_unregistered (start : Disk) (h : History) (path : String) :
    h.unregistered.indexed? start path = none := by
  refine indexed?_eq_none (a := .find path) ?_ rfl
  rw [index?, status, precompiled, loader?_lookup rfl, loader?_unregistered]
  rfl

theorem index?_eq_none_of_concat (hindex : index? start (h ++ [a]) = none) :
    h.index? start = none := by
  cases hread : h.reading? start with
  | none =>
      rw [index?, status, precompiled, hread]
      cases h.loader? <;> rfl
  | some r =>
      have hsame := precompiled_append (by rw [hread]; rfl) [a]
      rwa [index?, status, hsame] at hindex

theorem unregistered_concat (h : History) (a : Action) :
    unregistered (h ++ [a])
      = h.unregistered ++ (match a with
          | .register _ => []
          | _ => [a]) := by
  rw [unregistered, List.filter_append, unregistered]
  cases a <;> rfl

/-- As long as no index is loaded, registrations make no difference to what is compiled. -/
theorem compiled?_unregistered (hindex : h.index? start = none) :
    h.unregistered.compiled? root start path = h.compiled? root start path := by
  induction h using List.reverseRecOn with
  | nil => rfl
  | append_singleton h a ih =>
      have hbefore := ih (index?_eq_none_of_concat hindex)
      have hat : compiledAt? root start path (unregistered h) a
          = compiledAt? root start path h a := by
        cases ha : a.path? with
        | none => rw [compiledAt?, compiledAt?, ha, Option.bind_none, Option.bind_none]
        | some q =>
            rw [compiledAt?_lookup ha, compiledAt?_lookup ha, indexed?_unregistered,
              disk_unregistered, indexed?_eq_none hindex (by rw [ha]; rfl)]
      rw [compiled?_concat, unregistered_concat]
      cases a with
      | register loader =>
          rw [List.append_nil, hbefore]
          exact Option.or_none.symm
      | find q => rw [compiled?_concat, hbefore, hat]
      | render q model => rw [compiled?_concat, hbefore, hat]
      | change d => rw [compiled?_concat, hbefore, hat]

theorem lookup_unregistered (hindex : index? start (h ++ [a]) = none) (ha : a.path? = some path) :
    h.unregistered.lookup root start path = h.lookup root start path := by
  rw [lookup, lookup, indexed?_unregistered, disk_unregistered,
    indexed?_eq_none hindex (by rw [ha]; rfl),
    compiled?_unregistered (index?_eq_none_of_concat hindex)]

end History

theorem Action.answer_congr {a : Action} {f g : String → Except ViewError CompiledView}
    (h : ∀ path, a.path? = some path → f path = g path) : a.answer f = a.answer g := by
  cases a with
  | find path => exact congrArg _ (h path rfl)
  | render path model =>
      rw [answer, h path rfl]
      rfl
  | register loader => rfl
  | change d => rfl

/-! ## Requests that fail -/

namespace History

variable {start : Disk} {h : History} {a : Action} {root : Path} {path : String}

/-- A lookup that fails finds nothing in the index and nothing compiled before. -/
theorem not_found_of_lookup_eq_error {e : ViewError} (h' : h.lookup root start path = .error e) :
    h.indexed? start path = none ∧ h.compiled? root start path = none ∧
      ViewEngine.compileOnDemand { contentRoot := root } (h.disk start) path = .error e := by
  rw [lookup] at h'
  split at h'
  · cases h'
  · next hindexed =>
      split at h'
      · cases h'
      · next hcompiled => exact ⟨hindexed, hcompiled, h'⟩

/-- A disk that changes after a lookup leaves the index that the lookup used. -/
theorem indexed?_retry (ha : a.path?.isSome) (d : Disk) {q : String}
    (hkey : lookupKey q = lookupKey path) :
    indexed? start (h ++ [a, .change d]) q = h.indexed? start path := by
  have hload : precompiled start (h ++ [a, .change d] ++ [.find q])
      = precompiled start (h ++ [.find path]) := by
    rw [precompiled_lookup rfl, List.append_cons, precompiled_change, precompiled_lookup ha,
      precompiled_lookup rfl]
    cases h.precompiled start with
    | none => rfl
    | some p =>
        simp only [ViewCache.loaded, Option.map_some]
        rw [Precompiled.load_of_ne_unloaded (Precompiled.load_ne_unloaded _ _ _)]
  rw [indexed?, indexed?, index?, index?, status, status, hload]
  simp only [ViewIndex.get?, hkey]

/-- After a lookup that fails, the next one for its key compiles the template as it is then. -/
theorem lookup_retry {e : ViewError} (ha : a.path? = some path)
    (hfail : h.lookup root start path = .error e) (d : Disk) {q : String}
    (hkey : lookupKey q = lookupKey path) :
    lookup root start (h ++ [a, .change d]) q
      = ViewEngine.compileOnDemand { contentRoot := root } d q := by
  obtain ⟨hindexed, hcompiled, hcompile⟩ := not_found_of_lookup_eq_error hfail
  have hbefore : h.compiled? root start q = none := by
    rw [compiled?_eq_of_key_eq hkey, hcompiled]
  have hafter : compiled? root start (h ++ [a, .change d]) q = none := by
    rw [List.append_cons, compiled?_concat, compiled?_concat, hbefore, compiledAt?_lookup ha,
      hcompile]
    simp [Except.toOption, compiledAt?, Action.path?]
  have hdisk : disk start (h ++ [a, .change d]) = d := by
    rw [List.append_cons, disk_append]
    rfl
  rw [lookup, indexed?_retry (by rw [ha]; rfl) d hkey, hindexed, hafter, hdisk]

end History

end ViewPress
