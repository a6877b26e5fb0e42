import ViewPress.Proofs.WellFormed

/-!
# What a compilation without diagnostics is

Whether a compilation has diagnostics is decided by walks over lists: a table in which
the first symbol of a name counts, and a check of render blocks that carries the names
in scope along. This file says the same without any walk. The symbol of a name is that
of its first exporter, or else of its first declaration. A render block reads a path
inside the loops around it; `ReadsPath` says which paths and inside which loops, and the
check reports exactly those that start neither at the model nor at the variable of one
of these loops.
-/

namespace ViewPress

open Source (Declaration Statement ValuePath)

/-! ## Paths and the loops around them -/

/-- The block reads the path inside loops with these variables, the outermost first. The
source of a loop is read outside of that loop. -/
inductive ReadsPath : List Statement → List String → ValuePath → Prop where
  | emit {block : List Statement} {p : ValuePath} (h : .emit p ∈ block) : ReadsPath block [] p
  | cond {block yes : List Statement} {cond : ValuePath} {negate : Bool}
      {no : Option (List Statement)} (h : .branch cond negate yes no ∈ block) :
      ReadsPath block [] cond
  | yes {block yes : List Statement} {cond p : ValuePath} {negate : Bool}
      {no : Option (List Statement)} {loops : List String}
      (h : .branch cond negate yes no ∈ block) (hp : ReadsPath yes loops p) :
      ReadsPath block loops p
  | no {block yes no : List Statement} {cond p : ValuePath} {negate : Bool}
      {loops : List String} (h : .branch cond negate yes (some no) ∈ block)
      (hp : ReadsPath no loops p) : ReadsPath block loops p
  | source {block body : List Statement} {binding : String} {source : ValuePath}
      (h : .forEach binding source body ∈ block) : ReadsPath block [] source
  | body {block body : List Statement} {binding : String} {source p : ValuePath}
      {loops : List String} (h : .forEach binding source body ∈ block)
      (hp : ReadsPath body loops p) : ReadsPath block (binding :: loops) p

theorem ReadsPath.mono {block block' : List Statement} {loops : List String} {p : ValuePath}
    (h : ReadsPath block loops p) (hsub : block ⊆ block') : ReadsPath block' loops p := by
  cases h with
  | emit h => exact .emit (hsub h)
  | cond h => exact .cond (hsub h)
  | yes h hp => exact .yes (hsub h) hp
  | no h hp => exact .no (hsub h) hp
  | source h => exact .source (hsub h)
  | body h hp => exact .body (hsub h) hp

theorem mem_unboundPath {scope : List String} {p q : ValuePath} :
    p ∈ unboundPath scope q ↔ p = q ∧ p.root ∉ scope := by
  rw [unboundPath]
  split
  · next hmem =>
      have hroot : q.root ∈ scope := List.contains_iff_mem.mp hmem
      constructor
      · intro h
        cases h
      · rintro ⟨rfl, hnot⟩
        exact absurd hroot hnot
  · next hmem =>
      rw [List.mem_singleton]
      refine ⟨?_, And.left⟩
      rintro rfl
      exact ⟨rfl, fun hroot => hmem (List.contains_iff_mem.mpr hroot)⟩

theorem mem_unboundInAll {scope : List String} {block : List Statement} {p : ValuePath} :
    p ∈ unboundInAll scope block ↔ ∃ s ∈ block, p ∈ unboundIn scope s := by
  induction block with
  | nil => simp [unboundInAll]
  | cons s rest ih => simp [unboundInAll, ih]

/-- A path that is read and starts at no name in scope is reported. -/
theorem ReadsPath.mem_unboundInAll {block : List Statement} {loops : List String} {p : ValuePath}
    (h : ReadsPath block loops p) {scope : List String} (hscope : p.root ∉ scope)
    (hloops : p.root ∉ loops) : p ∈ unboundInAll scope block := by
  induction h generalizing scope with
  | emit h =>
      refine ViewPress.mem_unboundInAll.mpr ⟨_, h, ?_⟩
      rw [unboundIn, mem_unboundPath]
      exact ⟨rfl, hscope⟩
  | @cond block yes cond negate no h =>
      refine ViewPress.mem_unboundInAll.mpr ⟨_, h, ?_⟩
      cases no <;> simp [unboundIn, mem_unboundPath, hscope]
  | @yes block yes cond p negate no loops h hp ih =>
      refine ViewPress.mem_unboundInAll.mpr ⟨_, h, ?_⟩
      cases no <;> simp [unboundIn, ih hscope hloops]
  | no h hp ih =>
      refine ViewPress.mem_unboundInAll.mpr ⟨_, h, ?_⟩
      simp [unboundIn, ih hscope hloops]
  | source h =>
      refine ViewPress.mem_unboundInAll.mpr ⟨_, h, ?_⟩
      simp [unboundIn, mem_unboundPath, hscope]
  | @body block body binding source p loops h hp ih =>
      refine ViewPress.mem_unboundInAll.mpr ⟨_, h, ?_⟩
      obtain ⟨hbinding, hloops⟩ := List.ne_and_not_mem_of_not_mem_cons hloops
      have hbody := ih (List.not_mem_cons_of_ne_of_not_mem hbinding hscope) hloops
      rw [unboundIn]
      exact List.mem_append_right _ hbody

/-- The path is read inside loops such that it starts neither at a name in scope nor at one of
their variables. -/
def ReadsUnbound (scope : List String) (block : List Statement) (p : ValuePath) : Prop :=
  ∃ loops, ReadsPath block loops p ∧ p.root ∉ scope ∧ p.root ∉ loops

mutual

theorem readsUnbound_of_mem_unboundIn (scope : List String) (s : Statement) {p : ValuePath}
    (h : p ∈ unboundIn scope s) : ReadsUnbound scope [s] p := by
  match s with
  | .write text =>
      rw [unboundIn] at h
      cases h
  | .emit path =>
      rw [unboundIn, mem_unboundPath] at h
      obtain ⟨rfl, hroot⟩ := h
      exact ⟨[], .emit List.mem_cons_self, hroot, List.not_mem_nil⟩
  | .branch cond negate yes none =>
      rw [unboundIn, List.mem_append, mem_unboundPath] at h
      rcases h with ⟨rfl, hroot⟩ | h
      · exact ⟨[], .cond List.mem_cons_self, hroot, List.not_mem_nil⟩
      · obtain ⟨loops, hp, hroot⟩ := readsUnbound_of_mem_unboundInAll scope yes h
        exact ⟨loops, .yes List.mem_cons_self hp, hroot⟩
  | .branch cond negate yes (some no) =>
      rw [unboundIn, List.mem_append, List.mem_append, mem_unboundPath] at h
      rcases h with (⟨rfl, hroot⟩ | h) | h
      · exact ⟨[], .cond List.mem_cons_self, hroot, List.not_mem_nil⟩
      · obtain ⟨loops, hp, hroot⟩ := readsUnbound_of_mem_unboundInAll scope yes h
        exact ⟨loops, .yes List.mem_cons_self hp, hroot⟩
      · obtain ⟨loops, hp, hroot⟩ := readsUnbound_of_mem_unboundInAll scope no h
        exact ⟨loops, .no List.mem_cons_self hp, hroot⟩
  | .forEach binding source body =>
      rw [unboundIn, List.mem_append, mem_unboundPath] at h
      rcases h with ⟨rfl, hroot⟩ | h
      · exact ⟨[], .source List.mem_cons_self, hroot, List.not_mem_nil⟩
      · obtain ⟨loops, hp, hscope, hloops⟩ :=
          readsUnbound_of_mem_unboundInAll (binding :: scope) body h
        obtain ⟨hbinding, hscope⟩ := List.ne_and_not_mem_of_not_mem_cons hscope
        exact ⟨binding :: loops, .body List.mem_cons_self hp, hscope,
          List.not_mem_cons_of_ne_of_not_mem hbinding hloops⟩

theorem readsUnbound_of_mem_unboundInAll (scope : List String) (block : List Statement)
    {p : ValuePath} (h : p ∈ unboundInAll scope block) : ReadsUnbound scope block p := by
  match block with
  | [] =>
      rw [unboundInAll] at h
      cases h
  | s :: rest =>
      rw [unboundInAll, List.mem_append] at h
      rcases h with h | h
      · obtain ⟨loops, hp, hroot⟩ := readsUnbound_of_mem_unboundIn scope s h
        exact ⟨loops, hp.mono (List.cons_subset_cons s (List.nil_subset rest)), hroot⟩
      · obtain ⟨loops, hp, hroot⟩ := readsUnbound_of_mem_unboundInAll scope rest h
        exact ⟨loops, hp.mono (List.subset_cons_self s rest), hroot⟩

end

/-- Nothing is reported if and only if every path that is read starts at a name in scope or at
the variable of a loop around it. -/
theorem unboundInAll_eq_nil_iff {scope : List String} {block : List Statement} :
    unboundInAll scope block = [] ↔
      ∀ loops p, ReadsPath block loops p → p.root ∈ scope ∨ p.root ∈ loops := by
  rw [List.eq_nil_iff_forall_not_mem]
  constructor
  · intro h loops p hp
    by_contra hnot
    obtain ⟨hscope, hloops⟩ := not_or.mp hnot
    exact h p (hp.mem_unboundInAll hscope hloops)
  · intro h p hmem
    obtain ⟨loops, hp, hscope, hloops⟩ := readsUnbound_of_mem_unboundInAll scope block hmem
    exact (h loops p hp).elim hscope hloops

/-! ## The symbol of a name -/

/-- The symbol of a type that a module exports. -/
def Symbol.ofExport (m : Module) (t : TypeDef) : Symbol where
  name := t.name
  kind := t.kind
  bases := t.bases
  origin := .reference m.name

namespace Compilation

variable {c : Compilation} {name : String}

/-- The symbol of the first type of the name that a reference exports. -/
def exported? (c : Compilation) (name : String) : Option Symbol :=
  c.references.findSome? fun m => (m.findType? name).map (Symbol.ofExport m)

/-- The symbol of the first declaration of the name. -/
def declared? (c : Compilation) (name : String) : Option Symbol :=
  c.trees.zipIdx.findSome? fun (tree, index) =>
    (tree.types.find? (·.name == name)).map (Symbol.ofDeclaration index)

theorem find?_referenceSymbols (c : Compilation) (name : String) :
    c.referenceSymbols.find? name = c.exported? name := by
  rw [referenceSymbols, Symbols.find?, List.find?_flatMap, exported?]
  congr 1
  funext m
  rw [List.find?_map]
  rfl

theorem find?_declaredSymbols (c : Compilation) (name : String) :
    c.declaredSymbols.find? name = c.declared? name := by
  rw [declaredSymbols, declarations, List.map_flatMap, Symbols.find?, List.find?_flatMap, declared?]
  congr 1
  funext indexed
  rw [List.map_map, List.find?_map]
  rfl

theorem find?_symbols (c : Compilation) (name : String) :
    c.symbols.find? name = (c.exported? name).or (c.declared? name) := by
  rw [← find?_referenceSymbols, ← find?_declaredSymbols]
  exact List.find?_append

/-- A tree declares a type of the name. -/
def Declares (c : Compilation) (name : String) : Prop :=
  ∃ d ∈ c.declared, d.name = name

theorem find?_declaredSymbols_eq_none_iff :
    c.declaredSymbols.find? name = none ↔ ¬ c.Declares name := by
  rw [declaredSymbols, Symbols.find?, List.find?_eq_none, List.forall_mem_map]
  constructor
  · rintro h ⟨d, hd, rfl⟩
    obtain ⟨index, tree, hmem⟩ := mem_declared.mp hd
    exact h (index, tree, d) hmem (beq_self_eq_true d.name)
  · rintro h ⟨index, tree, d⟩ hmem hname
    exact h ⟨d, mem_declared.mpr ⟨index, tree, hmem⟩, beq_iff_eq.mp hname⟩

theorem find?_symbols_ne_none_iff :
    c.symbols.find? name ≠ none ↔ c.Declares name ∨ c.Exports name := by
  rw [symbols, Symbols.find?, List.find?_append, ne_eq, Option.or_eq_none_iff, ← Symbols.find?,
    ← Symbols.find?, find?_referenceSymbols_eq_none_iff, find?_declaredSymbols_eq_none_iff,
    not_and_or, not_not, not_not, or_comm]

/-- A compilation has no diagnostics if and only if it is well formed: its declared names are
all different and none is exported; every base is declared or exported; no declared type leads
back to itself through bases; every attribute is of a type of attributes; and in every render
block each path starts at the model or at the variable of a loop around it. The symbol of a
name is that of its first exporter, or else of its first declaration. -/
theorem no_diagnostics_iff (c : Compilation) :
    (c.diagnostics = [] ↔
      ((c.declared.map Declaration.name).Nodup ∧ ∀ d ∈ c.declared, ¬ c.Exports d.name) ∧
      (∀ d ∈ c.declared, ∀ b ∈ d.bases, c.Declares b.name ∨ c.Exports b.name) ∧
      (∀ d ∈ c.declared, ¬ c.symbols.Cyclic d.name) ∧
      (∀ d ∈ c.declared, ∀ a ∈ d.attributes,
        ∃ s, c.symbols.find? a.name = some s ∧ s.kind = .attributeType) ∧
      ∀ d ∈ c.declared, ∀ block ∈ d.render, ∀ loops p,
        ReadsPath block loops p → p.root = "model" ∨ p.root ∈ loops) ∧
    ∀ name, c.symbols.find? name = (c.exported? name).or (c.declared? name) := by
  have hscope (d : Declaration) : unboundInAll [modelVariable] (d.render.getD []) = [] ↔
      ∀ block ∈ d.render, ∀ loops p, ReadsPath block loops p →
        p.root = "model" ∨ p.root ∈ loops := by
    cases d.render with
    | none => simp [unboundInAll]
    | some block => simp [unboundInAll_eq_nil_iff, modelVariable]
  refine ⟨diagnostics_eq_nil_iff.trans ⟨fun h => ?_, ?_⟩, c.find?_symbols⟩
  · refine ⟨⟨h.nodup, h.unexported⟩, fun d hd b hb => ?_, fun d hd => (h.accepts d hd).acyclic,
      fun d hd => (h.accepts d hd).attributes, fun d hd => (hscope d).mp (h.accepts d hd).scope⟩
    exact find?_symbols_ne_none_iff.mp ((h.accepts d hd).bases b hb)
  · rintro ⟨⟨hnodup, hunexported⟩, hbases, hacyclic, hattributes, hreads⟩
    refine ⟨hnodup, hunexported, fun d hd => ?_⟩
    refine ⟨fun b hb => ?_, hacyclic d hd, hattributes d hd, (hscope d).mpr (hreads d hd)⟩
    exact find?_symbols_ne_none_iff.mpr (hbases d hd b hb)

end Compilation

end ViewPress
