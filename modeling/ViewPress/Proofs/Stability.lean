import ViewPress.Proofs.Acceptance
import ViewPress.Proofs.Compiling

/-!
# Printing is stable

Printed declarations are parsed back to themselves if their names are names of the
language. This file shows that nothing else ever comes out of the parser, nor out of
tagging what came out of it. A parsed tree is the tree of a derivation, the
identifiers of a derivation are tokens, and every token that is an identifier was
cut out of a text as one. Tagging takes attributes away and adds one whose name is
an identifier.

The printer looks at no span. So the text that is printed for a tree is printed
again for what the text is parsed to, and printing is stable after one parse.
-/

namespace ViewPress.Source

open Text (IsDotted IsPath isIdent)

/-! ## Names of derivations -/

namespace Derivation

/-- The identifiers among the tokens are identifiers of the language. -/
def Identifiers (tokens : List Token) : Prop :=
  ∀ x, .ident x ∈ tokens → isIdent x.toList = true

section

variable {tokens more : List Token}

theorem identifiers_nil : Identifiers [] := by
  intro x hx
  cases hx

theorem identifiers_append :
    Identifiers (tokens ++ more) ↔ Identifiers tokens ∧ Identifiers more := by
  simp only [Identifiers, List.mem_append, or_imp, forall_and]

theorem identifiers_ident {x : String} :
    Identifiers (.ident x :: tokens) ↔ isIdent x.toList = true ∧ Identifiers tokens := by
  simp [Identifiers]

theorem identifiers_punct {c : Char} :
    Identifiers (.punct c :: tokens) ↔ Identifiers tokens := by
  simp [Identifiers]

theorem identifiers_flatMap {α : Type} {f : α → List Token} {as : List α} :
    Identifiers (as.flatMap f) ↔ ∀ a ∈ as, Identifiers (f a) := by
  induction as with
  | nil => simp [identifiers_nil]
  | cons a as ih => rw [List.flatMap_cons, identifiers_append, ih, List.forall_mem_cons]

theorem identifiers_braces : Identifiers (braces tokens) ↔ Identifiers tokens := by
  simp only [braces, List.cons_append, identifiers_punct, identifiers_append, identifiers_nil,
    and_true]

end

theorem Name.isPath {n : Name} (h : Identifiers n.tokens) : IsPath n.segments := by
  rw [Name.tokens, identifiers_ident, identifiers_flatMap] at h
  refine ⟨List.cons_ne_nil _ _, List.forall_mem_cons.mpr ⟨h.1, fun x hx => ?_⟩⟩
  have hdot := h.2 x hx
  rw [dot, identifiers_punct, identifiers_ident] at hdot
  exact hdot.1

theorem Name.isDotted {n : Name} (h : Identifiers n.tokens) :
    IsDotted (Text.joinDots n.segments) :=
  ⟨n.segments, Name.isPath h, rfl⟩

mutual

theorem Statement.wellNamed (s : Statement) (h : Identifiers s.tokens) : s.tree.WellNamed := by
  match s with
  | .write text =>
      rw [Statement.tree, Source.Statement.WellNamed]
      trivial
  | .emit path =>
      rw [Statement.tokens, identifiers_append, identifiers_ident] at h
      rw [Statement.tree, Source.Statement.WellNamed]
      exact Name.isPath h.1.2
  | .branch negate cond yes =>
      rw [Statement.tokens, identifiers_append, identifiers_append, identifiers_braces] at h
      obtain ⟨⟨-, hcond⟩, hyes⟩ := h
      rw [Statement.tree, Source.Statement.WellNamed]
      exact ⟨Name.isPath hcond, wellNamed_statements yes hyes⟩
  | .branchElse negate cond yes no =>
      simp only [Statement.tokens, identifiers_append, identifiers_ident,
        identifiers_braces] at h
      obtain ⟨⟨⟨-, hcond⟩, hyes⟩, -, hno⟩ := h
      rw [Statement.tree, Source.Statement.WellNamed]
      exact ⟨Name.isPath hcond, wellNamed_statements yes hyes, wellNamed_statements no hno⟩
  | .forEach binding source body =>
      rw [Statement.tokens, identifiers_append, identifiers_ident, identifiers_ident,
        identifiers_ident, identifiers_braces] at h
      obtain ⟨⟨-, hbinding, -, hsource⟩, hbody⟩ := h
      rw [Statement.tree, Source.Statement.WellNamed]
      exact ⟨hbinding, Name.isPath hsource, wellNamed_statements body hbody⟩

theorem wellNamed_statements (ss : List Statement) (h : Identifiers (statementsTokens ss)) :
    WellNamedStatements (statementsTree ss) := by
  match ss with
  | [] =>
      rw [statementsTree, WellNamedStatements]
      trivial
  | s :: rest =>
      rw [statementsTokens, identifiers_append] at h
      rw [statementsTree, WellNamedStatements]
      exact ⟨s.wellNamed h.1, wellNamed_statements rest h.2⟩

end

theorem identifiers_heritage {bases : List Name} (h : Identifiers (heritageTokens bases)) :
    ∀ n ∈ bases, Identifiers n.tokens := by
  cases bases with
  | nil =>
      intro n hn
      cases hn
  | cons base bases =>
      rw [heritageTokens, identifiers_append, identifiers_punct, identifiers_flatMap] at h
      refine List.forall_mem_cons.mpr ⟨h.1, fun n hn => ?_⟩
      have hnext := h.2 n hn
      rwa [furtherBase, identifiers_punct] at hnext

theorem Declaration.wellNamed (d : Declaration) (h : Identifiers d.tokens) :
    d.tree.WellNamed := by
  simp only [Declaration.tokens, identifiers_append, identifiers_ident, identifiers_punct,
    identifiers_flatMap] at h
  obtain ⟨⟨⟨⟨hattributes, -, hname⟩, hbases⟩, hrender⟩, -⟩ := h
  refine ⟨Name.isDotted hname, ?_, ?_, ?_⟩
  · intro b hb
    obtain ⟨n, hn, rfl⟩ := List.mem_map.mp hb
    exact Name.isDotted (identifiers_heritage hbases n hn)
  · intro a ha
    obtain ⟨a, hmem, rfl⟩ := List.mem_map.mp ha
    have htokens := hattributes a hmem
    simp only [Attribute.tokens, identifiers_append, identifiers_punct] at htokens
    exact Name.isDotted htokens.1.1
  · intro block hblock
    obtain ⟨ss, hss, rfl⟩ := Option.map_eq_some_iff.mp hblock
    rw [hss, renderTokens, identifiers_ident, identifiers_braces] at hrender
    exact wellNamed_statements ss hrender.2

end Derivation

/-! ## Spans do not matter -/

mutual

theorem Statement.wellNamed_erase (s : Statement) : s.erase.WellNamed ↔ s.WellNamed := by
  match s with
  | .write text => rw [Statement.erase]
  | .emit path =>
      rw [Statement.erase, Statement.WellNamed, Statement.WellNamed]
      rfl
  | .branch cond negate yes none =>
      rw [Statement.erase, Statement.WellNamed, Statement.WellNamed,
        wellNamedStatements_eraseStatements yes]
      rfl
  | .branch cond negate yes (some no) =>
      rw [Statement.erase, Statement.WellNamed, Statement.WellNamed,
        wellNamedStatements_eraseStatements yes, wellNamedStatements_eraseStatements no]
      rfl
  | .forEach binding source body =>
      rw [Statement.erase, Statement.WellNamed, Statement.WellNamed,
        wellNamedStatements_eraseStatements body]
      rfl

theorem wellNamedStatements_eraseStatements (ss : List Statement) :
    WellNamedStatements (eraseStatements ss) ↔ WellNamedStatements ss := by
  match ss with
  | [] => rw [eraseStatements]
  | s :: rest =>
      rw [eraseStatements, WellNamedStatements, WellNamedStatements, s.wellNamed_erase,
        wellNamedStatements_eraseStatements rest]

end

theorem Declaration.WellNamed.of_erase {d : Declaration} (h : d.erase.WellNamed) :
    d.WellNamed where
  name := h.name
  bases b hb := h.bases b.erase (List.mem_map_of_mem hb)
  attributes a ha := h.attributes a.erase (List.mem_map_of_mem ha)
  render block hblock :=
    (wellNamedStatements_eraseStatements block).mp
      (h.render _ (Option.mem_map_of_mem eraseStatements hblock))

mutual

theorem Statement.print_erase (s : Statement) (depth : Nat) :
    s.erase.print depth = s.print depth := by
  match s with
  | .write text => rw [Statement.erase]
  | .emit path =>
      rw [Statement.erase, Statement.print, Statement.print]
      rfl
  | .branch cond negate yes none =>
      rw [Statement.erase, Statement.print, Statement.print, printStatements_erase yes]
      rfl
  | .branch cond negate yes (some no) =>
      rw [Statement.erase, Statement.print, Statement.print, printStatements_erase yes,
        printStatements_erase no]
      rfl
  | .forEach binding source body =>
      rw [Statement.erase, Statement.print, Statement.print, printStatements_erase body]
      rfl

theorem printStatements_erase (ss : List Statement) (depth : Nat) :
    printStatements depth (eraseStatements ss) = printStatements depth ss := by
  match ss with
  | [] => rw [eraseStatements]
  | s :: rest =>
      rw [eraseStatements, printStatements, printStatements, s.print_erase depth,
        printStatements_erase rest depth]

end

theorem Declaration.print_erase (d : Declaration) : d.erase.print = d.print := by
  have hattributes : (d.attributes.map Attribute.erase).map Attribute.print
      = d.attributes.map Attribute.print := by
    rw [List.map_map]
    rfl
  have hbases : printBases (d.bases.map BaseRef.erase) = printBases d.bases := by
    rw [printBases, printBases, List.map_map, List.isEmpty_map]
    rfl
  have hrender : printRender (d.render.map eraseStatements) = printRender d.render := by
    cases d.render with
    | none => rfl
    | some block => rw [Option.map_some, printRender, printRender, printStatements_erase block]
  rw [Declaration.print, Declaration.print, Declaration.erase, hattributes, hbases, hrender]

/-- Declarations that differ in spans only are printed alike. -/
theorem printTypes_congr {types types' : List Declaration}
    (h : types.map Declaration.erase = types'.map Declaration.erase) :
    printTypes types = printTypes types' := by
  have hprint (ds : List Declaration) :
      (ds.map Declaration.erase).map Declaration.print = ds.map Declaration.print := by
    rw [List.map_map]
    exact List.map_congr_left fun d _ => d.print_erase
  rw [printTypes, printTypes, ← hprint types, h, hprint]

/-! ## What parsing and tagging return -/

theorem wellNamed_of_parse {path source : String} {tree : Tree}
    (h : parse path source = .ok tree) : ∀ d ∈ tree.types, d.WellNamed := by
  obtain ⟨-, -, ds, htokens, herase⟩ := exists_derivation_of_parse h
  have hidents : Derivation.Identifiers (Derivation.typesTokens ds) :=
    fun x hx => (tokenizes_iff_spells.mp htokens).isIdent hx
  intro d hd
  have hmem : d.erase ∈ ds.map Derivation.Declaration.tree := by
    rw [← herase]
    exact List.mem_map_of_mem hd
  obtain ⟨d', hd', htree⟩ := List.mem_map.mp hmem
  refine .of_erase ?_
  rw [← htree]
  exact d'.wellNamed (Derivation.identifiers_flatMap.mp hidents d' hd')

theorem Declaration.WellNamed.untagged {d : Declaration} (h : d.WellNamed) :
    d.untagged.WellNamed where
  name := h.name
  bases := h.bases
  attributes a ha := h.attributes a (List.mem_filter.mp ha).1
  render := h.render

theorem Declaration.WellNamed.tagged {d : Declaration} (h : d.WellNamed) (path : String) :
    (d.tagged path).WellNamed where
  name := h.name
  bases := h.bases
  attributes a ha := by
    rcases List.mem_append.mp ha with ha | ha
    · exact h.untagged.attributes a ha
    · have hname : isIdent Module.viewPathAttribute.toList = true := by decide
      rw [List.mem_singleton.mp ha]
      exact Text.isDotted_of_isIdent hname
  render := h.render

theorem wellNamed_tagTypes {isPage : Declaration → Bool} {path : String} {viewTagged : Bool}
    {types : List Declaration} (h : ∀ d ∈ types, d.WellNamed) :
    ∀ d ∈ tagTypes isPage path viewTagged types, d.WellNamed := by
  induction types generalizing viewTagged with
  | nil => exact h
  | cons d rest ih =>
      obtain ⟨hd, hrest⟩ := List.forall_mem_cons.mp h
      rw [tagTypes]
      split
      · refine List.forall_mem_cons.mpr ⟨?_, ih hrest⟩
        split
        · exact hd.untagged
        · exact hd.tagged path
      · exact List.forall_mem_cons.mpr ⟨hd, ih hrest⟩

/-! ## Printing and parsing -/

/-- Printed declarations are parsed, under any path, to the same declarations up to spans,
and these are printed as the same text. -/
def PrintsBack (types : List Declaration) : Prop :=
  ∀ path, ∃ types',
    parse path (printTypes types) = .ok { path, source := printTypes types, types := types' } ∧
      types'.map Declaration.erase = types.map Declaration.erase ∧
      printTypes types' = printTypes types

theorem printsBack_of_wellNamed {types : List Declaration} (h : ∀ d ∈ types, d.WellNamed) :
    PrintsBack types := by
  intro path
  have hfront : ∀ ⦃cs : List Char⦄ ⦃tokens : List Token⦄,
      Reads cs tokens → Reads ("".toList ++ cs) tokens := fun _ _ hread => hread
  obtain ⟨types', hparse, herase⟩ := parse_printTypes h hfront path
  rw [String.empty_append] at hparse
  exact ⟨types', hparse, herase, printTypes_congr herase⟩

/-- Printing and parsing are inverse up to spans. Declarations whose names are names of the
language are parsed back from their printed form; all that the parser returns are such, and
so is what tagging makes of it with any symbols. Hence printing is stable after one parse. -/
theorem parsing_inverts_printing :
    (∀ types : List Declaration, (∀ d ∈ types, d.WellNamed) → PrintsBack types) ∧
    (∀ (path source : String) (tree : Tree), parse path source = .ok tree →
      ∀ tree', (tree' = tree ∨ ∃ symbols, tree' = tagTree symbols tree) →
        (∀ d ∈ tree'.types, d.WellNamed) ∧ PrintsBack tree'.types) := by
  refine ⟨fun types h => printsBack_of_wellNamed h, fun path source tree hparse tree' htree' => ?_⟩
  have hnames : ∀ d ∈ tree'.types, d.WellNamed := by
    rcases htree' with rfl | ⟨symbols, rfl⟩
    · exact wellNamed_of_parse hparse
    · exact wellNamed_tagTypes (wellNamed_of_parse hparse)
  exact ⟨hnames, printsBack_of_wellNamed hnames⟩

/-- Keywords as names, a comma after the last argument, and a literal over two lines that
looks like a comment. The class is a page, so it is tagged anew before it is printed. -/
theorem parsing_inverts_printing_keywords :
    let symbols : Symbols :=
      [{ name := "for", kind := .classType, bases := ["in"], origin := .source 0 },
        { name := "in", kind := .classType, bases := ["TemplatePage"], origin := .reference "m" }]
    let source := "#[ViewPath(\"x\",)]class for:in\x7brender\x7bif !else\x7b\x7delse\x7b"
      ++ "for in in in.if\x7bwrite \"\\\"\n//\";\x7d\x7d\x7d\x7d//"
    ∃ tree, parse "a.tpl" source = .ok tree ∧
      ((tagTree symbols tree).types.flatMap fun d => d.attributes.map Attribute.args)
        = [["a.tpl"]] ∧
      PrintsBack (tagTree symbols tree).types := by
  intro symbols source
  have heval : ((parse "a.tpl" source).toOption.map fun tree =>
      (tagTree symbols tree).types.flatMap fun d => d.attributes.map Attribute.args)
        = some [["a.tpl"]] := by
    decide +kernel
  obtain ⟨tree, htree, htags⟩ := Option.map_eq_some_iff.mp heval
  have hparse := eq_ok_of_toOption htree
  have hback := parsing_inverts_printing.2 "a.tpl" source tree hparse _ (.inr ⟨symbols, rfl⟩)
  exact ⟨tree, hparse, htags, hback.2⟩

end ViewPress.Source
