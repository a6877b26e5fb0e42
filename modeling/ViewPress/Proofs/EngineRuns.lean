import ViewPress.Proofs.Histories

/-!
# Runs of the view engine

An engine answers every request of a run as the history of the run says. The proof
carries through the run that the caches hold just what the history says. One action
keeps that, and gives the answer that the history says; the rest is about histories.
-/

namespace ViewPress

open ViewPath (lookupKey)

/-- An engine with the disk that it reads and the lines that it has logged. -/
structure Service where
  engine : ViewEngine
  disk : Disk
  log : List Console.Event := []

namespace Service

def step (s : Service) : Action → Service × Answer
  | .find path =>
      let (events, engine, view) := s.engine.findView s.disk path
      ({ s with engine, log := s.log ++ events }, .view view)
  | .render path model =>
      let (events, engine, html) := s.engine.render s.disk path model
      ({ s with engine, log := s.log ++ events }, .html html)
  | .register loader => ({ s with engine := s.engine.addPrecompiled loader }, .done)
  | .change disk => ({ s with disk }, .done)

/-- A new engine after a list of actions. -/
def after (root : Path) (start : Disk) (actions : List Action) : Service :=
  actions.foldl (fun s a => (s.step a).1) { engine := { contentRoot := root }, disk := start }

end Service

/-! ## Caches -/

namespace ViewCache

theorem load_eq (c : ViewCache) (d : Disk) :
    c.load d = (loadLog c.precompiled d, { c with precompiled := loaded c.precompiled d }) := by
  obtain ⟨onDemand, precompiled⟩ := c
  cases precompiled <;> rfl

theorem addPrecompiled_eq (c : ViewCache) (loader : ModuleLoader) :
    c.addPrecompiled loader
      = { c with precompiled := c.precompiled.or (some (loader, .unloaded)) } := by
  obtain ⟨onDemand, precompiled⟩ := c
  cases precompiled <;> rfl

variable {c : ViewCache} {d : Disk} {path : String}
  {compile : String → Except ViewError CompiledView} {v : CompiledView}

theorem getOrAdd_hit (h : (c.load d).2.get? path = some v) :
    c.getOrAdd d path compile = ((c.load d).1, (c.load d).2, .ok v) := by
  simp only [getOrAdd, h]

theorem getOrAdd_compiled (h : (c.load d).2.get? path = none) (hcompile : compile path = .ok v) :
    c.getOrAdd d path compile
      = ((c.load d).1, { (c.load d).2 with onDemand := (c.load d).2.onDemand.add path v },
        .ok v) := by
  simp only [getOrAdd, h, hcompile]

theorem getOrAdd_failed {e : ViewError} (h : (c.load d).2.get? path = none)
    (hcompile : compile path = .error e) :
    c.getOrAdd d path compile = ((c.load d).1, (c.load d).2, .error e) := by
  simp only [getOrAdd, h, hcompile]

end ViewCache

theorem OnDemand.get?_add (c : OnDemand) (path : String) (v : CompiledView) (q : String) :
    (c.add path v).get? q
      = (c.get? q).or (if lookupKey path = lookupKey q then some v else none) := by
  rw [get?, add, List.lookup_append, get?]
  refine congrArg _ ?_
  by_cases hkey : lookupKey path = lookupKey q
  · rw [if_pos hkey, hkey, List.lookup_cons_self]
  · rw [if_neg hkey, List.lookup_cons, beq_false_of_ne (Ne.symm hkey), List.lookup_nil]

/-! ## The caches hold what the history says -/

/-- What holds of an engine after a history. -/
structure Service.Reflects (root : Path) (start : Disk) (h : History) (s : Service) : Prop where
  contentRoot : s.engine.contentRoot = root
  disk : s.disk = h.disk start
  precompiled : s.engine.cache.precompiled = h.precompiled start
  onDemand : ∀ path, s.engine.cache.onDemand.get? path = h.compiled? root start path
  log : s.log = h.log start

namespace Service.Reflects

open History ViewCache

variable {root : Path} {start : Disk} {h : History} {s : Service} {a : Action} {path : String}

/-- The views at hand for a lookup are the index's, and then those compiled before. -/
theorem get?_load (hs : Reflects root start h s) (path : String) :
    (s.engine.cache.load s.disk).2.get? path
      = (h.indexed? start path).or (h.compiled? root start path) := by
  have hindex : (s.engine.cache.load s.disk).2.index? = History.index? start (h ++ [.find path]) := by
    rw [load_eq, ViewCache.index?, ViewCache.status, History.index?, History.status,
      precompiled_lookup rfl, hs.precompiled, hs.disk]
  rw [ViewCache.get?, hindex, ← hs.onDemand, load_eq]
  rfl

/-- A lookup answers what the history says and leaves caches that the longer history says. -/
theorem getOrAdd (hs : Reflects root start h s) (ha : a.path? = some path) :
    ∃ cache, s.engine.cache.getOrAdd s.disk path (s.engine.compileOnDemand s.disk)
        = (loadLog (h.precompiled start) (h.disk start), cache, h.lookup root start path) ∧
      cache.precompiled = History.precompiled start (h ++ [a]) ∧
      ∀ q, cache.onDemand.get? q = History.compiled? root start (h ++ [a]) q := by
  have hat := hs.get?_load path
  have hlog : (s.engine.cache.load s.disk).1 = loadLog (h.precompiled start) (h.disk start) := by
    rw [load_eq, hs.precompiled, hs.disk]
  have hprecompiled :
      (s.engine.cache.load s.disk).2.precompiled = History.precompiled start (h ++ [a]) := by
    rw [load_eq, precompiled_lookup (by rw [ha]; rfl), hs.precompiled, hs.disk]
  have honDemand (q : String) :
      (s.engine.cache.load s.disk).2.onDemand.get? q = h.compiled? root start q := by
    rw [load_eq, ← hs.onDemand]
  have hcompile : s.engine.compileOnDemand s.disk path
      = ViewEngine.compileOnDemand { contentRoot := root } (h.disk start) path := by
    rw [← hs.disk, ← hs.contentRoot]
    rfl
  cases hindexed : h.indexed? start path with
  | some v =>
      rw [hindexed, Option.some_or] at hat
      refine ⟨_, ?_, hprecompiled, fun q => ?_⟩
      · rw [getOrAdd_hit hat, hlog, lookup, hindexed]
      · rw [honDemand, compiled?_concat, compiledAt?_lookup ha, hindexed,
          if_neg (by simp), Option.or_none]
  | none =>
      rw [hindexed, Option.none_or] at hat
      cases hbefore : h.compiled? root start path with
      | some v =>
          rw [hbefore] at hat
          refine ⟨_, ?_, hprecompiled, fun q => ?_⟩
          · rw [getOrAdd_hit hat, hlog, lookup, hindexed, hbefore]
          · rw [honDemand, compiled?_concat, compiledAt?_lookup ha]
            by_cases hkey : lookupKey path = lookupKey q
            · rw [← compiled?_eq_of_key_eq hkey, hbefore, Option.some_or]
            · rw [if_neg fun hq => hkey hq.1, Option.or_none]
      | none =>
          rw [hbefore] at hat
          have hlookup : h.lookup root start path
              = ViewEngine.compileOnDemand { contentRoot := root } (h.disk start) path := by
            rw [lookup, hindexed, hbefore]
          cases hresult : s.engine.compileOnDemand s.disk path with
          | ok v =>
              refine ⟨{ (s.engine.cache.load s.disk).2 with
                onDemand := (s.engine.cache.load s.disk).2.onDemand.add path v }, ?_,
                hprecompiled, fun q => ?_⟩
              · rw [getOrAdd_compiled hat hresult, hlog, hlookup, ← hcompile, hresult]
              · rw [OnDemand.get?_add, honDemand, compiled?_concat, compiledAt?_lookup ha, hindexed,
                  ← hcompile, hresult]
                simp [Except.toOption]
          | error e =>
              refine ⟨_, ?_, hprecompiled, fun q => ?_⟩
              · rw [getOrAdd_failed hat hresult, hlog, hlookup, ← hcompile, hresult]
              · rw [honDemand, compiled?_concat, compiledAt?_lookup ha, ← hcompile, hresult]
                simp [Except.toOption]

/-- A lookup in the engine, whatever is done with the view. -/
theorem findView (hs : Reflects root start h s) (ha : a.path? = some path) :
    ∃ events engine,
      s.engine.findView s.disk path = (events, engine, h.lookup root start path) ∧
      Reflects root start (h ++ [a]) { s with engine, log := s.log ++ events } := by
  obtain ⟨cache, hget, hprecompiled, honDemand⟩ := hs.getOrAdd ha
  refine ⟨loadLog (h.precompiled start) (h.disk start), { s.engine with cache }, ?_,
    hs.contentRoot, ?_, hprecompiled, honDemand, ?_⟩
  · rw [ViewEngine.findView, hget]
  · rw [hs.disk, disk_append]
    cases a with
    | find _ | render _ _ | register _ => rfl
    | change _ => cases ha
  · rw [hs.log, log_lookup (by rw [ha]; rfl)]

/-- One action: the answer is what the history says, and the caches go on holding what it
says. -/
theorem step (hs : Reflects root start h s) (a : Action) :
    Reflects root start (h ++ [a]) (s.step a).1 ∧
      (s.step a).2 = a.answer (h.lookup root start) := by
  cases a with
  | find path =>
      obtain ⟨events, engine, hfind, hnext⟩ := hs.findView (a := .find path) rfl
      simp only [Service.step, hfind]
      exact ⟨hnext, rfl⟩
  | render path model =>
      obtain ⟨events, engine, hfind, hnext⟩ := hs.findView (a := .render path model) rfl
      simp only [Service.step, ViewEngine.render, hfind]
      exact ⟨hnext, rfl⟩
  | register loader =>
      refine ⟨⟨hs.contentRoot, ?_, ?_, fun path => ?_, ?_⟩, rfl⟩
      · rw [disk_append]
        exact hs.disk
      · rw [precompiled_register, ← hs.precompiled, Service.step, ViewEngine.addPrecompiled,
          addPrecompiled_eq]
      · rw [Service.step, ViewEngine.addPrecompiled, addPrecompiled_eq, compiled?_concat]
        exact (hs.onDemand path).trans Option.or_none.symm
      · rw [log_other rfl, ← hs.log]
        rfl
  | change d =>
      refine ⟨⟨hs.contentRoot, ?_, ?_, fun path => ?_, ?_⟩, rfl⟩
      · rw [disk_append]
        rfl
      · rw [precompiled_change, ← hs.precompiled]
        rfl
      · rw [compiled?_concat]
        exact (hs.onDemand path).trans Option.or_none.symm
      · rw [log_other rfl, ← hs.log]
        rfl

end Service.Reflects

theorem Service.reflects_after (root : Path) (start : Disk) (h : History) :
    Reflects root start h (after root start h) := by
  induction h using List.reverseRecOn with
  | nil => exact ⟨rfl, rfl, rfl, fun _ => rfl, rfl⟩
  | append_singleton h a ih =>
      rw [after, List.foldl_append]
      exact (ih.step a).1

theorem ViewCache.load_of_status_ne {c : ViewCache} (h : c.status ≠ some .unloaded) (d : Disk) :
    (c.load d).2 = c := by
  obtain ⟨onDemand, precompiled⟩ := c
  cases precompiled with
  | none => rfl
  | some p =>
      have hstate : p.2 ≠ .unloaded := fun heq => h (congrArg some heq)
      rw [load_eq]
      simp only [loaded, Option.map_some, Precompiled.load_of_ne_unloaded hstate]

/-- A lookup that fails does no more to the caches than to load what is not loaded. -/
theorem Service.Reflects.step_failed {root : Path} {start : Disk} {h : History} {s : Service}
    {a : Action} {path : String} {e : ViewError} (hs : Reflects root start h s)
    (ha : a.path? = some path) (hfail : h.lookup root start path = .error e) :
    (s.step a).1.engine = { s.engine with cache := (s.engine.cache.load s.disk).2 } := by
  obtain ⟨hindexed, hcompiled, hcompile⟩ := History.not_found_of_lookup_eq_error hfail
  have hat := hs.get?_load path
  rw [hindexed, hcompiled, Option.none_or] at hat
  rw [← hs.disk, ← hs.contentRoot] at hcompile
  have hget := ViewCache.getOrAdd_failed hat
    (show s.engine.compileOnDemand s.disk path = .error e from hcompile)
  cases a with
  | find q =>
      cases ha
      simp only [Service.step, ViewEngine.findView, hget]
  | render q model =>
      cases ha
      simp only [Service.step, ViewEngine.render, ViewEngine.findView, hget]
  | register loader => cases ha
  | change d => cases ha

/-! ## Answers -/

end ViewPress
