import Mathlib.Data.List.Forall2
import ViewPress.Compilation.Compile
import ViewPress.Proofs.Outcomes

/-!
# What a successful compilation consists of

Compiling units is a chain of stages, each of which may end it with diagnostics. A
compilation that succeeds has gone through all of them, and this file says once
what is then known of each: every unit was parsed, no check found anything before
or after tagging, no two pages own one key, and the module holds the tagged types.

Tagging changes attributes only. The symbols of a compilation are therefore the
same before and after it, and so is everything that is computed from them.
-/

namespace ViewPress

open Source (Declaration TokenStream Tree)

/-! ## The stages -/

/-- Outcomes without an error are the values that came of them. -/
theorem eq_map_ok_of_partitionOutcomes {ε α : Type} {outcomes : List (Except ε α)}
    (h : (partitionOutcomes outcomes).2 = []) :
    outcomes = (partitionOutcomes outcomes).1.map .ok := by
  induction outcomes with
  | nil => rfl
  | cons o outcomes ih =>
      cases o with
      | ok a =>
          rw [partitionOutcomes] at h ⊢
          rw [List.map_cons, ← ih h]
      | error e =>
          rw [partitionOutcomes] at h
          cases h

theorem exists_of_forall₂ {α β : Type} {R : α → β → Prop} {as : List α} {bs : List β}
    (h : List.Forall₂ R as bs) {a : α} (ha : a ∈ as) : ∃ b ∈ bs, R a b := by
  induction h with
  | nil => cases ha
  | cons hab _ ih =>
      rcases List.mem_cons.mp ha with rfl | ha
      · exact ⟨_, List.mem_cons_self, hab⟩
      · obtain ⟨b, hb, hR⟩ := ih ha
        exact ⟨b, List.mem_cons_of_mem _ hb, hR⟩

theorem forall₂_and_mem {α β : Type} {R : α → β → Prop} {as : List α} {bs : List β}
    (h : List.Forall₂ R as bs) : List.Forall₂ (fun a b => R a b ∧ b ∈ bs) as bs := by
  have hflip : List.Forall₂ (fun b a => b ∈ bs ∧ R a b) bs as :=
    (List.forall₂_and_left _ _).mpr ⟨fun b hb => hb, h.flip⟩
  exact hflip.flip.imp fun a b hab => hab.symm

namespace Compilation

theorem of_ofUnits_eq {units : List GeneratedUnit} {references : List (Except Diagnostic Module)}
    {c : Compilation} (h : ofUnits units references = .ok c) :
    (units.filter GeneratedUnit.success).map (fun u => Source.parse u.path u.code)
        = c.trees.map .ok ∧
      references = c.references.map .ok := by
  simp only [ofUnits] at h
  split at h
  · next hnone =>
      cases h
      obtain ⟨hfaults, hmissing⟩ := List.append_eq_nil_iff.mp hnone
      exact ⟨eq_map_ok_of_partitionOutcomes hfaults, eq_map_ok_of_partitionOutcomes hmissing⟩
  · cases h

/-- The trees of a compilation are those of its units, in order. -/
theorem forall₂_parse {units : List GeneratedUnit} {references : List (Except Diagnostic Module)}
    {c : Compilation} (h : ofUnits units references = .ok c) :
    List.Forall₂ (fun u tree => Source.parse u.path u.code = .ok tree)
      (units.filter GeneratedUnit.success) c.trees := by
  obtain ⟨hparse, -⟩ := of_ofUnits_eq h
  rwa [← List.forall₂_eq_eq_eq, List.forall₂_map_left_iff, List.forall₂_map_right_iff] at hparse

/-- The types that the trees declare, in order. -/
def types (c : Compilation) : List TypeDef :=
  c.trees.flatMap fun t => t.types.map Declaration.typeDef

/-- What holds of a compilation that succeeds, stage by stage. -/
structure Yields (c : Compilation) (name : String) (compiled : Compiled) : Prop where
  diagnostics : c.diagnostics = []
  tagged_diagnostics : c.tagged.diagnostics = []
  owners : Owners.trees [] c.tagged.symbols c.tagged.trees = []
  module : compiled.module = { name, types := c.tagged.types }
  binary : compiled.binary = compiled.module.encode

theorem yields_of_compile_eq {c : Compilation} {name : String} {compiled : Compiled}
    (h : c.compile name = .ok compiled) : c.Yields name compiled := by
  simp only [compile] at h
  split at h
  · next hdiagnostics =>
      split at h
      · next htagged =>
          rw [emit] at h
          split at h
          · next howners =>
              cases h
              exact ⟨hdiagnostics, htagged, howners, rfl, rfl⟩
          · cases h
      · cases h
  · cases h

end Compilation

theorem exists_yields_of_compileUnits_eq {name : String} {units : List GeneratedUnit}
    {references : List (Except Diagnostic Module)} {compiled : Compiled}
    (h : compileUnits name units references = .ok compiled) :
    ∃ c, Compilation.ofUnits units references = .ok c ∧ c.Yields name compiled := by
  rw [compileUnits] at h
  cases hc : Compilation.ofUnits units references with
  | error problems =>
      rw [hc] at h
      cases h
  | ok c =>
      rw [hc] at h
      exact ⟨c, rfl, Compilation.yields_of_compile_eq h⟩

/-! ## Code given by its characters

Reading the characters out of a string is the slowest part of evaluating a compilation.
For code that is given as a list of characters nothing needs to be read. -/

theorem partitionOutcomes_map_ok {ε α : Type} (as : List α) :
    partitionOutcomes (as.map (.ok : α → Except ε α)) = (as, []) := by
  induction as with
  | nil => rfl
  | cons a as ih => rw [List.map_cons, partitionOutcomes, ih]

/-- The compilation of one unit against the given modules. -/
def Compilation.ofChars? (modules : List Module) (path : String) (cs : List Char) :
    Option Compilation := do
  let types ← (TokenStream.lex 0 cs).parse.toOption
  return { trees := [{ path, source := String.ofList cs, types }], references := modules }

theorem Compilation.ofUnits_chars {modules : List Module} {path : String} {cs : List Char}
    {c : Compilation} (h : ofChars? modules path cs = some c) :
    ofUnits [{ path, code := String.ofList cs, diagnostics := [] }] (modules.map .ok)
      = .ok c := by
  obtain ⟨types, htypes, hc⟩ := Option.bind_eq_some_iff.mp h
  have hparse : Source.parse path (String.ofList cs)
      = .ok { path, source := String.ofList cs, types } := by
    rw [Source.parse, TokenStream.ofSource, String.toList_ofList, eq_ok_of_toOption htypes]
  rw [ofUnits, List.filter_cons_of_pos (by rfl), List.filter_nil, List.map_singleton, hparse,
    partitionOutcomes_map_ok]
  exact congrArg Except.ok (Option.some.inj hc)

/-- What can be evaluated of a compilation holds of it. -/
theorem exists_compiled_of_chars {α : Type} (modules : List Module) (name path : String)
    (cs : List Char) (f : Compilation → Compiled → α) (a : α)
    (h : (do
      let c ← Compilation.ofChars? modules path cs
      let compiled ← (c.compile name).toOption
      return f c compiled) = some a) :
    ∃ c compiled,
      Compilation.ofUnits [{ path, code := String.ofList cs, diagnostics := [] }]
        (modules.map .ok) = .ok c ∧
      compileUnits name [{ path, code := String.ofList cs, diagnostics := [] }]
        (modules.map .ok) = .ok compiled ∧
      f c compiled = a := by
  obtain ⟨c, hc, hrest⟩ := Option.bind_eq_some_iff.mp h
  obtain ⟨compiled, hcompile, ha⟩ := Option.bind_eq_some_iff.mp hrest
  have hunits := Compilation.ofUnits_chars hc
  refine ⟨c, compiled, hunits, ?_, Option.some.inj ha⟩
  rw [compileUnits, hunits]
  exact eq_ok_of_toOption hcompile

/-! ## Tagging -/

@[simp]
theorem untagged_untagged (d : Declaration) : d.untagged.untagged = d.untagged := by
  simp [Declaration.untagged]

@[simp]
theorem untagged_tagged (d : Declaration) (path : String) :
    (d.tagged path).untagged = d.untagged := by
  simp [Declaration.untagged, Declaration.tagged]

theorem map_untagged_tagTypes (isPage : Declaration → Bool) (path : String) (viewTagged : Bool)
    (types : List Declaration) :
    (tagTypes isPage path viewTagged types).map Declaration.untagged
      = types.map Declaration.untagged := by
  induction types generalizing viewTagged with
  | nil => rfl
  | cons d rest ih =>
      rw [tagTypes]
      split
      · rw [List.map_cons, ih, List.map_cons]
        split
        · rw [untagged_untagged]
        · rw [untagged_tagged]
      · rw [List.map_cons, ih, List.map_cons]

/-- The tree without any view path. -/
def Source.Tree.untagged (tree : Tree) : Tree :=
  { tree with types := tree.types.map Declaration.untagged }

theorem untagged_tagTree (symbols : Symbols) (tree : Tree) :
    (tagTree symbols tree).untagged = tree.untagged := by
  rw [Tree.untagged, tagTree, map_untagged_tagTypes, Tree.untagged]

namespace Compilation

/-- The compilation without any view path. -/
def untagged (c : Compilation) : Compilation :=
  { c with trees := c.trees.map Tree.untagged }

theorem declaredSymbols_eq (c : Compilation) :
    c.declaredSymbols
      = c.trees.zipIdx.flatMap fun (t, i) => t.types.map (Symbol.ofDeclaration i) := by
  simp only [declaredSymbols, declarations, List.map_flatMap, List.map_map]
  rfl

theorem symbols_untagged (c : Compilation) : c.untagged.symbols = c.symbols := by
  have hdeclared : c.untagged.declaredSymbols = c.declaredSymbols := by
    rw [declaredSymbols_eq, declaredSymbols_eq, untagged, List.zipIdx_map, List.flatMap_map]
    simp only [Prod.map, id, Tree.untagged, List.map_map]
    rfl
  rw [symbols, symbols, hdeclared]
  rfl

/-- Symbols say nothing about view paths. -/
theorem symbols_eq_of_untagged_eq {c c' : Compilation} (h : c.untagged = c'.untagged) :
    c.symbols = c'.symbols := by
  rw [← symbols_untagged c, h, symbols_untagged]

@[simp]
theorem symbols_tagged (c : Compilation) : c.tagged.symbols = c.symbols := by
  refine symbols_eq_of_untagged_eq ?_
  simp only [untagged, tagged, List.map_map, Function.comp_def, untagged_tagTree]

end Compilation

end ViewPress
