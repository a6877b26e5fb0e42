import ViewPress.Proofs.Pages

/-!
# Well-formed compilations

The checks of a compilation walk its trees in order and say what they find, each with a
place. That they find nothing can be said without any order: no name is declared twice
or exported, and the symbols accept every declaration. `diagnostics_eq_nil_iff` states
that the two are the same.
-/

namespace ViewPress

open Source (Declaration Tree)

/-! ## Declared names -/

namespace Compilation

variable {c : Compilation}

/-- The declarations of all trees in order. -/
def declared (c : Compilation) : List Declaration :=
  c.trees.flatMap Tree.types

theorem map_declarations (c : Compilation) : c.declarations.map (·.2.2) = c.declared := by
  rw [declarations, List.map_flatMap, declared, ← List.zipIdx_map_fst 0 c.trees, List.flatMap_map]
  simp only [List.zipIdx_map_fst, List.map_map]
  exact List.flatMap_congr fun t _ => List.map_id _

theorem mem_declared {d : Declaration} :
    d ∈ c.declared ↔ ∃ index tree, (index, tree, d) ∈ c.declarations := by
  rw [← map_declarations, List.mem_map]
  constructor
  · rintro ⟨⟨index, tree, e⟩, hmem, rfl⟩
    exact ⟨index, tree, hmem⟩
  · rintro ⟨index, tree, hmem⟩
    exact ⟨(index, tree, d), hmem, rfl⟩

theorem find?_referenceSymbols_eq_none_iff {name : String} :
    c.referenceSymbols.find? name = none ↔ ¬ c.Exports name := by
  rw [Symbols.find?, List.find?_eq_none, Exports]
  constructor
  · rintro h ⟨m, hm, t, ht, rfl⟩
    refine h _ (List.mem_flatMap.mpr ⟨m, hm, List.mem_map.mpr ⟨t, ht, rfl⟩⟩) ?_
    exact beq_self_eq_true t.name
  · intro h s hs hname
    obtain ⟨m, hm, hs⟩ := List.mem_flatMap.mp hs
    obtain ⟨t, ht, rfl⟩ := List.mem_map.mp hs
    exact h ⟨m, hm, t, ht, beq_iff_eq.mp hname⟩

/-- No declaration clashes if and only if the names are new and all different. -/
theorem declarationErrors_eq_nil_iff {known : Symbols}
    {ds : List (Nat × Tree × Declaration)} :
    c.declarationErrors known ds = [] ↔
      (ds.map (·.2.2.name)).Nodup ∧ ∀ d ∈ ds, known.find? d.2.2.name = none := by
  induction ds generalizing known with
  | nil => simp [declarationErrors]
  | cons head rest ih =>
      obtain ⟨index, tree, d⟩ := head
      rw [declarationErrors]
      cases hfind : known.find? d.name with
      | some first => simp [hfind]
      | none =>
          have happend (name : String) :
              Symbols.find? (known ++ [Symbol.ofDeclaration index d]) name = none ↔
                known.find? name = none ∧ name ≠ d.name := by
            simp only [Symbols.find?, List.find?_append, Option.or_eq_none_iff,
              List.find?_singleton, Symbol.ofDeclaration]
            by_cases hname : d.name = name
            · simp [hname]
            · simp [hname, Ne.symm hname]
          simp only [ih, happend, List.map_cons, List.nodup_cons, List.forall_mem_cons, hfind,
            true_and, List.mem_map, not_exists, not_and]
          constructor
          · rintro ⟨hnodup, hnew⟩
            exact ⟨⟨fun e he heq => (hnew e he).2 heq, hnodup⟩, fun e he => (hnew e he).1⟩
          · rintro ⟨⟨hne, hnodup⟩, hnew⟩
            exact ⟨hnodup, fun e he => ⟨hnew e he, hne e he⟩⟩

end Compilation

/-! ## Accepted declarations -/

/-- The bases of a name lead back to it in one or more steps. -/
def Symbols.Cyclic (symbols : Symbols) (name : String) : Prop :=
  Relation.TransGen symbols.HasBase name name

theorem Symbols.inCycle_iff {symbols : Symbols} {name : String} :
    symbols.inCycle name = true ↔ symbols.Cyclic name := by
  rw [Cyclic, Relation.TransGen.head'_iff, inCycle]
  cases hfind : symbols.find? name with
  | none => simp [HasBase, hfind]
  | some s =>
      rw [reaches_iff]
      simp [HasBase, hfind, Derives]

/-- What the symbols ask of a declaration: its bases are known, they do not lead back to it,
its attributes are attributes, and its render block uses values in scope only. -/
structure Symbols.Accepts (symbols : Symbols) (d : Declaration) : Prop where
  bases : ∀ b ∈ d.bases, symbols.find? b.name ≠ none
  acyclic : ¬ symbols.Cyclic d.name
  attributes : ∀ a ∈ d.attributes, ∃ s, symbols.find? a.name = some s ∧ s.kind = .attributeType
  scope : unboundInAll [modelVariable] (d.render.getD []) = []

namespace Compilation

variable {c : Compilation}

theorem baseErrors_eq_nil_iff {symbols : Symbols} {tree : Tree} {d : Declaration} :
    baseErrors symbols tree d = [] ↔ ∀ b ∈ d.bases, symbols.find? b.name ≠ none := by
  rw [baseErrors, List.map_eq_nil_iff, List.filter_eq_nil_iff]
  simp

theorem cycleErrors_eq_nil_iff {symbols : Symbols} {tree : Tree} {d : Declaration} :
    cycleErrors symbols tree d = [] ↔ ¬ symbols.Cyclic d.name := by
  rw [cycleErrors, ← Symbols.inCycle_iff]
  split <;> simp [*]

theorem attributeErrors_eq_nil_iff {symbols : Symbols} {tree : Tree} {d : Declaration} :
    attributeErrors symbols tree d = [] ↔
      ∀ a ∈ d.attributes, ∃ s, symbols.find? a.name = some s ∧ s.kind = .attributeType := by
  rw [attributeErrors, List.filterMap_eq_nil_iff]
  refine forall₂_congr fun a _ => ?_
  cases symbols.find? a.name with
  | none => simp
  | some s => by_cases hkind : s.kind = .attributeType <;> simp [hkind]

/-- A compilation in which all names are new and different and all declarations are
accepted. -/
structure WellFormed (c : Compilation) : Prop where
  nodup : (c.declared.map Declaration.name).Nodup
  unexported : ∀ d ∈ c.declared, ¬ c.Exports d.name
  accepts : ∀ d ∈ c.declared, c.symbols.Accepts d

theorem diagnostics_eq_nil_iff : c.diagnostics = [] ↔ c.WellFormed := by
  have hnames : c.declarationErrors c.referenceSymbols c.declarations = [] ↔
      (c.declared.map Declaration.name).Nodup ∧ ∀ d ∈ c.declared, ¬ c.Exports d.name := by
    rw [declarationErrors_eq_nil_iff, ← map_declarations, List.map_map, List.forall_mem_map]
    simp only [find?_referenceSymbols_eq_none_iff]
    rfl
  have haccepts (tree : Tree) (d : Declaration) :
      baseErrors c.symbols tree d ++ cycleErrors c.symbols tree d
          ++ attributeErrors c.symbols tree d ++ scopeErrors tree d = [] ↔
        c.symbols.Accepts d := by
    simp only [List.append_eq_nil_iff, baseErrors_eq_nil_iff, cycleErrors_eq_nil_iff,
      attributeErrors_eq_nil_iff, scopeErrors, List.map_eq_nil_iff]
    exact ⟨fun ⟨⟨⟨hbases, hcycle⟩, hattributes⟩, hscope⟩ => ⟨hbases, hcycle, hattributes, hscope⟩,
      fun ⟨hbases, hcycle, hattributes, hscope⟩ => ⟨⟨⟨hbases, hcycle⟩, hattributes⟩, hscope⟩⟩
  rw [diagnostics, List.append_eq_nil_iff, hnames, List.flatMap_eq_nil_iff]
  constructor
  · rintro ⟨⟨hnodup, hunexported⟩, herrors⟩
    refine ⟨hnodup, hunexported, fun d hd => ?_⟩
    obtain ⟨index, tree, hmem⟩ := mem_declared.mp hd
    exact (haccepts tree d).mp (herrors (index, tree, d) hmem)
  · rintro ⟨hnodup, hunexported, haccepted⟩
    refine ⟨⟨hnodup, hunexported⟩, ?_⟩
    rintro ⟨index, tree, d⟩ hmem
    exact (haccepts tree d).mpr (haccepted d (mem_declared.mpr ⟨index, tree, hmem⟩))

end Compilation

end ViewPress
