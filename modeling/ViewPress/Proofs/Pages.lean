import ViewPress.Proofs.Compiling
import ViewPress.Proofs.Reachability

/-!
# Pages

A page is a class one of whose bases leads to the page marker. The tagger asks for
that in these words. The emitter asks whether the name of the class leads to the
marker, through the symbol that the table has for it. In a compilation without
diagnostics the two agree, as long as the marker is exported by a reference: no name
is declared twice, so the symbol of a declared name is the one of its declaration,
and no declaration is the marker itself.
-/

namespace ViewPress

open Source (Attribute BaseRef Declaration Tree)

/-! ## Symbols of declarations -/

namespace Compilation

variable {c : Compilation} {index : Nat} {tree : Tree} {d : Declaration}

theorem mem_declarations :
    (index, tree, d) ∈ c.declarations ↔ (tree, index) ∈ c.trees.zipIdx ∧ d ∈ tree.types := by
  rw [declarations, List.mem_flatMap]
  constructor
  · rintro ⟨⟨t, i⟩, ht, hd⟩
    obtain ⟨e, he, heq⟩ := List.mem_map.mp hd
    cases heq
    exact ⟨ht, he⟩
  · rintro ⟨ht, hd⟩
    exact ⟨(tree, index), ht, List.mem_map.mpr ⟨d, hd, rfl⟩⟩

theorem exists_mem_declarations (htree : tree ∈ c.trees) (hd : d ∈ tree.types) :
    ∃ index, (index, tree, d) ∈ c.declarations := by
  obtain ⟨index, hindex⟩ := List.getElem?_of_mem htree
  exact ⟨index, mem_declarations.mpr ⟨List.mem_zipIdx_iff_getElem?.mpr hindex, hd⟩⟩

/-- Without a clash no name is known before it is declared, and the symbol of a declared
name is the one of its declaration. -/
theorem find?_of_declarationErrors_eq_nil {known : Symbols}
    {declared : List (Nat × Tree × Declaration)}
    (h : c.declarationErrors known declared = []) (hd : (index, tree, d) ∈ declared) :
    known.find? d.name = none ∧
      Symbols.find? (known ++ declared.map fun (i, _, e) => Symbol.ofDeclaration i e) d.name
        = some (Symbol.ofDeclaration index d) := by
  induction declared generalizing known with
  | nil => cases hd
  | cons head rest ih =>
      obtain ⟨i, t, e⟩ := head
      rw [declarationErrors] at h
      split at h
      · cases h
      · next hnone =>
          rcases List.mem_cons.mp hd with heq | hd
          · cases heq
            refine ⟨hnone, ?_⟩
            rw [Symbols.find?, List.find?_append, ← Symbols.find?, hnone, Option.none_or,
              List.map_cons, List.find?_cons_of_pos]
            exact beq_self_eq_true _
          · obtain ⟨hunknown, hfound⟩ := ih h hd
            rw [Symbols.find?, List.find?_append, Option.or_eq_none_iff] at hunknown
            refine ⟨hunknown.1, ?_⟩
            rw [List.append_assoc] at hfound
            exact hfound

variable (hdiagnostics : c.diagnostics = []) (hd : (index, tree, d) ∈ c.declarations)
include hdiagnostics hd

theorem find?_declared : c.symbols.find? d.name = some (Symbol.ofDeclaration index d) := by
  have herrors := (List.append_eq_nil_iff.mp hdiagnostics).1
  exact (find?_of_declarationErrors_eq_nil herrors hd).2

theorem find?_referenceSymbols_declared : c.referenceSymbols.find? d.name = none := by
  have herrors := (List.append_eq_nil_iff.mp hdiagnostics).1
  exact (find?_of_declarationErrors_eq_nil herrors hd).1

end Compilation

/-! ## Page classes -/

/-- A class one of whose bases leads to the page marker. -/
def Symbols.Page (symbols : Symbols) (d : Declaration) : Prop :=
  d.kind = .classType ∧ ∃ b ∈ d.bases, symbols.Derives b.name Module.pageMarker

theorem Symbols.baseImplements_iff {symbols : Symbols} {d : Declaration} {marker : String} :
    symbols.baseImplements d marker = true ↔ ∃ b ∈ d.bases, symbols.Derives b.name marker := by
  simp only [baseImplements, List.any_eq_true, implements_iff]

namespace Compilation

/-- A reference has a type of the name. -/
def Exports (c : Compilation) (name : String) : Prop :=
  ∃ m ∈ c.references, ∃ t ∈ m.types, t.name = name

variable {c : Compilation} {index : Nat} {tree : Tree} {d : Declaration}

section

variable (hdiagnostics : c.diagnostics = []) (hd : (index, tree, d) ∈ c.declarations)
include hdiagnostics hd

theorem isPageClass_iff : c.symbols.isPageClass d = true ↔ c.symbols.Page d := by
  rw [Symbols.isPageClass, find?_declared hdiagnostics hd, Bool.and_eq_true, Bool.and_eq_true,
    Symbols.baseImplements_iff, Symbols.Page, beq_iff_eq]
  constructor
  · exact fun ⟨⟨hkind, _⟩, hbase⟩ => ⟨hkind, hbase⟩
  · rintro ⟨hkind, hbase⟩
    refine ⟨⟨hkind, ?_⟩, hbase⟩
    simp [Symbol.ofDeclaration, hkind, Source.DeclarationKind.typeKind]

/-- What a declared name derives from, the name itself apart, it derives from through a base
of its declaration. -/
theorem derives_declared_iff {marker : String} (hne : d.name ≠ marker) :
    c.symbols.Derives d.name marker ↔ ∃ b ∈ d.bases, c.symbols.Derives b.name marker := by
  have hfind := find?_declared hdiagnostics hd
  rw [Symbols.derives_iff]
  constructor
  · rintro (heq | ⟨base, ⟨s, hs, hbase⟩, hderives⟩)
    · exact absurd heq hne
    · obtain rfl := Option.some.inj (hfind.symm.trans hs)
      obtain ⟨b, hb, rfl⟩ := List.mem_map.mp hbase
      exact ⟨b, hb, hderives⟩
  · rintro ⟨b, hb, hderives⟩
    exact .inr ⟨b.name, ⟨_, hfind, List.mem_map.mpr ⟨b, hb, rfl⟩⟩, hderives⟩

/-- A name that a reference exports is not declared. -/
theorem name_ne_of_exports {name : String} (hexports : c.Exports name) : d.name ≠ name := by
  obtain ⟨m, hm, t, ht, rfl⟩ := hexports
  intro heq
  have hnone := find?_referenceSymbols_declared hdiagnostics hd
  rw [Symbols.find?, List.find?_eq_none] at hnone
  refine hnone { name := t.name, kind := t.kind, bases := t.bases, origin := .reference m.name }
    (List.mem_flatMap.mpr ⟨m, hm, List.mem_map.mpr ⟨t, ht, rfl⟩⟩) ?_
  rw [heq]
  exact beq_self_eq_true t.name

end

theorem exports_pageMarker (hhost : Module.host ∈ c.references) : c.Exports Module.pageMarker :=
  ⟨Module.host, hhost, _, List.mem_cons_self, rfl⟩

end Compilation

/-- A class whose name leads to the page marker. -/
def TypeDef.IsPage (symbols : Symbols) (t : TypeDef) : Prop :=
  t.kind = .classType ∧ symbols.Derives t.name Module.pageMarker

instance (symbols : Symbols) (t : TypeDef) : Decidable (t.IsPage symbols) :=
  inferInstanceAs (Decidable (_ ∧ _))

theorem Symbols.isPage_iff {symbols : Symbols} {d : Declaration} :
    symbols.isPage d = true ↔ d.typeDef.IsPage symbols := by
  rw [Symbols.isPage, Bool.and_eq_true, Symbols.implements_iff, TypeDef.IsPage]
  cases hkind : d.kind <;> simp [Declaration.typeDef, hkind, Source.DeclarationKind.typeKind]

/-- The tagger and the emitter take the same declarations for pages. -/
theorem Compilation.isPageClass_eq_isPage {c : Compilation} {tree : Tree} {d : Declaration}
    (hdiagnostics : c.diagnostics = []) (hexports : c.Exports Module.pageMarker)
    (htree : tree ∈ c.trees) (hd : d ∈ tree.types) :
    c.symbols.isPageClass d = c.symbols.isPage d := by
  obtain ⟨index, hd⟩ := exists_mem_declarations htree hd
  have hne : d.name ≠ Module.pageMarker := name_ne_of_exports hdiagnostics hd hexports
  rw [Bool.eq_iff_iff, isPageClass_iff hdiagnostics hd, Symbols.Page, Symbols.isPage,
    Bool.and_eq_true, beq_iff_eq, Symbols.implements_iff,
    derives_declared_iff hdiagnostics hd hne]

/-! ## View paths -/

theorem find?_viewPath_eq_none {attributes : List Attribute} :
    (attributes.filter (·.name != Module.viewPathAttribute)).find?
      (·.name == Module.viewPathAttribute) = none := by
  rw [List.find?_eq_none]
  intro a ha
  have hne := (List.mem_filter.mp ha).2
  simpa using hne

theorem viewPath?_typeDef (d : Declaration) :
    d.typeDef.viewPath?
      = (d.attributes.find? (·.name == Module.viewPathAttribute)).bind (·.args.head?) := by
  have hfind : d.typeDef.attributes.find? (·.name == Module.viewPathAttribute)
      = (d.attributes.find? (·.name == Module.viewPathAttribute)).map
          fun a => { name := a.name, args := a.args } := by
    rw [Declaration.typeDef, List.find?_map]
    rfl
  rw [TypeDef.viewPath?, hfind]
  cases d.attributes.find? (·.name == Module.viewPathAttribute) <;> rfl

theorem viewPath?_untagged (d : Declaration) : d.untagged.typeDef.viewPath? = none := by
  rw [viewPath?_typeDef, Declaration.untagged, find?_viewPath_eq_none]
  rfl

theorem viewPath?_tagged (d : Declaration) (path : String) :
    (d.tagged path).typeDef.viewPath? = some path := by
  rw [viewPath?_typeDef, Declaration.tagged, Declaration.untagged, List.find?_append,
    find?_viewPath_eq_none]
  rfl

section

variable {isPage : Declaration → Bool} (huntagged : ∀ d, isPage d.untagged = isPage d)
  (htagged : ∀ d path, isPage (d.tagged path) = isPage d)
include huntagged htagged

/-- Types that are not pages are left as they are. -/
theorem filter_not_tagTypes (path : String) (viewTagged : Bool) (types : List Declaration) :
    (tagTypes isPage path viewTagged types).filter (!isPage ·) = types.filter (!isPage ·) := by
  induction types generalizing viewTagged with
  | nil => rfl
  | cons d rest ih =>
      rw [tagTypes]
      split
      · next hd =>
          have hhead : isPage (if viewTagged then d.untagged else d.tagged path) = true := by
            split
            · rw [huntagged, hd]
            · rw [htagged, hd]
          rw [List.filter_cons_of_neg (by simp [hhead]), List.filter_cons_of_neg (by simp [hd]), ih]
      · next hd =>
          rw [List.filter_cons_of_pos (by simpa using hd),
            List.filter_cons_of_pos (by simpa using hd), ih]

/-- The first page owns the path and the pages after it own none. -/
theorem viewPaths_tagTypes (path : String) (viewTagged : Bool) (types : List Declaration) :
    ((tagTypes isPage path viewTagged types).filter isPage).filterMap (·.typeDef.viewPath?)
      = if !viewTagged && types.any isPage then [path] else [] := by
  induction types generalizing viewTagged with
  | nil => cases viewTagged <;> rfl
  | cons d rest ih =>
      rw [tagTypes]
      split
      · next hd =>
          cases viewTagged with
          | true =>
              rw [if_pos rfl, List.filter_cons_of_pos (by rw [huntagged, hd]),
                List.filterMap_cons, viewPath?_untagged]
              exact ih true
          | false =>
              rw [if_neg Bool.false_ne_true, List.filter_cons_of_pos (by rw [htagged, hd]),
                List.filterMap_cons, viewPath?_tagged]
              simp [ih, hd]
      · next hd =>
          rw [List.filter_cons_of_neg hd, ih]
          simp [hd]

end

end ViewPress
