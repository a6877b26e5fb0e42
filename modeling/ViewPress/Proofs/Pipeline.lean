import ViewPress.Proofs.Compiling
import ViewPress.Proofs.Templates

/-!
# From templates to types

A template becomes a class of a module by way of a text: its class is printed behind
a comment, the text is cut into tokens and parsed, the tree is tagged, and the
declarations of all trees are emitted. Nothing is lost or changed on this way. The
type that comes out is the one that can be read off the template directly, with the
path of the template as its only attribute if it has one.
-/

namespace ViewPress

open Source (Attribute BaseRef Declaration Reads Statement Token Tree ValuePath eraseStatements)

/-! ## The types of templates -/

namespace Template

mutual

/-- The instruction that a node stands for. A branch without an `else` does nothing there. -/
def Node.instr : Node → Instr
  | .text content => .write content
  | .emit path => .emit path
  | .branch cond negate yes none => .branch cond negate (instrs yes) []
  | .branch cond negate yes (some no) => .branch cond negate (instrs yes) (instrs no)
  | .forEach binding source body => .forEach binding source (instrs body)

def instrs : List Node → List Instr
  | [] => []
  | n :: ns => n.instr :: instrs ns

end

/-- The class that the template at `path` stands for, with the given attributes. -/
def type (path : String) (t : Template) (attributes : List AttributeDef) : TypeDef where
  name := className path
  kind := .classType
  bases := [t.inherits.getD Module.pageBase]
  attributes := attributes
  body := instrs t.nodes

mutual

theorem lower_statement (n : Node) : n.statement.lower = n.instr := by
  cases n with
  | text content => rw [Node.statement, Statement.lower, Node.instr]
  | emit path => rw [Node.statement, Statement.lower, Node.instr]
  | branch cond negate yes no =>
      cases no with
      | none => rw [Node.statement, Statement.lower, Node.instr, lowerAll_statements yes]
      | some no =>
          rw [Node.statement, Statement.lower, Node.instr, lowerAll_statements yes,
            lowerAll_statements no]
  | forEach binding source body =>
      rw [Node.statement, Statement.lower, Node.instr, lowerAll_statements body]

theorem lowerAll_statements (ns : List Node) : lowerAll (statements ns) = instrs ns := by
  cases ns with
  | nil => rw [statements, lowerAll, instrs]
  | cons n ns =>
      rw [statements, lowerAll, instrs, lower_statement n, lowerAll_statements ns]

end

theorem typeDef_declaration (path : String) (t : Template) :
    (declaration path t).typeDef = t.type path [] := by
  simp only [Declaration.typeDef, declaration, Option.getD_some, lowerAll_statements]
  rfl

end Template

/-! ## Types do not depend on spans -/

mutual

theorem lower_erase (s : Statement) : s.erase.lower = s.lower := by
  cases s with
  | write text => rw [Statement.erase]
  | emit path =>
      rw [Statement.erase, Statement.lower, Statement.lower]
      rfl
  | branch cond negate yes no =>
      cases no with
      | none =>
          rw [Statement.erase, Statement.lower, Statement.lower, lowerAll_eraseStatements yes]
          rfl
      | some no =>
          rw [Statement.erase, Statement.lower, Statement.lower, lowerAll_eraseStatements yes,
            lowerAll_eraseStatements no]
          rfl
  | forEach binding source body =>
      rw [Statement.erase, Statement.lower, Statement.lower, lowerAll_eraseStatements body]
      rfl

theorem lowerAll_eraseStatements (ss : List Statement) :
    lowerAll (eraseStatements ss) = lowerAll ss := by
  cases ss with
  | nil => rw [eraseStatements]
  | cons s ss =>
      rw [eraseStatements, lowerAll, lowerAll, lower_erase s, lowerAll_eraseStatements ss]

end

theorem typeDef_erase (d : Declaration) : d.erase.typeDef = d.typeDef := by
  have hbody : lowerAll (d.erase.render.getD []) = lowerAll (d.render.getD []) := by
    rw [Declaration.erase]
    cases d.render with
    | none => rfl
    | some block => exact lowerAll_eraseStatements block
  rw [Declaration.typeDef, Declaration.typeDef, hbody]
  simp only [Declaration.erase, List.map_map]
  rfl

theorem typeDef_tagged (d : Declaration) (path : String) :
    (d.tagged path).typeDef =
      { d.typeDef with
        attributes := d.typeDef.attributes.filter (·.name != Module.viewPathAttribute)
          ++ [{ name := Module.viewPathAttribute, args := [path] }] } := by
  simp only [Declaration.typeDef, Declaration.tagged, Declaration.untagged, List.map_append,
    List.filter_map]
  rfl

/-! ## The generated code -/

namespace Template

theorem newline_notMem_oneLine (s : String) : '\n' ∉ (oneLine s).toList := by
  rw [oneLine, String.toList_map, List.mem_map]
  rintro ⟨c, -, hc⟩
  split at hc
  · exact absurd hc (by decide)
  · next h => exact h (.inl hc)

theorem toList_header (application path : String) :
    (header application path).toList
      = '/' :: '/' :: ((" Generated from `".toList ++ (oneLine path).toList
        ++ "` for application `".toList ++ (oneLine application).toList ++ "`.".toList)
        ++ ['\n']) := by
  have hfront : "// Generated from `".toList = '/' :: '/' :: " Generated from `".toList := by
    decide +kernel
  have hback : "`.\n".toList = "`.".toList ++ ['\n'] := by decide +kernel
  unfold header
  rw [String.toList_append, String.toList_append, String.toList_append, String.toList_append,
    hfront, hback]
  simp only [List.cons_append, List.append_assoc]

/-- The comment in front of generated code holds no token. -/
theorem reads_header {cs : List Char} {tokens : List Token} (h : Reads cs tokens)
    (application path : String) : Reads ((header application path).toList ++ cs) tokens := by
  have hline : '\n' ∉ " Generated from `".toList ++ (oneLine path).toList
      ++ "` for application `".toList ++ (oneLine application).toList ++ "`.".toList := by
    rw [List.mem_append, List.mem_append, List.mem_append, List.mem_append]
    rintro ((((h | h) | h) | h) | h)
    · revert h
      decide +kernel
    · exact newline_notMem_oneLine path h
    · revert h
      decide +kernel
    · exact newline_notMem_oneLine application h
    · revert h
      decide +kernel
  rw [toList_header, List.cons_append, List.cons_append, List.append_assoc _ ['\n'],
    List.singleton_append]
  exact h.comment hline

/-- The code of a template is parsed to the template's class. -/
theorem parse_code (application path source : String) :
    ∃ d, Source.parse path ((parse source).1.code application path)
        = .ok { path, source := (parse source).1.code application path, types := [d] } ∧
      d.erase = (declaration path (parse source).1).erase := by
  have hnamed : ∀ d ∈ [declaration path (parse source).1], d.WellNamed :=
    List.forall_mem_singleton.mpr (wellNamed_declaration path source)
  obtain ⟨types, hparse, herase⟩ :=
    Source.parse_printTypes hnamed (fun _ _ h => reads_header h application path) path
  obtain ⟨d, rfl, hd⟩ := List.map_eq_singleton_iff.mp herase
  exact ⟨d, hparse, hd⟩

end Template

/-- The template that the bytes of a file spell, if they are text. A byte order mark in
front is not part of it. -/
def Template.ofBytes? (bytes : List UInt8) : Option Template :=
  (Text.ofUtf8? bytes).map fun text => (parse (GeneratedUnit.dropMark text)).1

/-- A unit that was generated without problems holds the code of the template's class. -/
theorem GeneratedUnit.exists_template_of_success {application path : String}
    {bytes : List UInt8} (h : (ofBytes application path bytes).success = true) :
    ∃ source, Template.ofBytes? bytes = some (Template.parse source).1 ∧
      ofBytes application path bytes =
        { path, code := (Template.parse source).1.code application path, diagnostics := [] } := by
  rw [ofBytes] at h ⊢
  cases htext : Text.ofUtf8? bytes with
  | none =>
      rw [htext] at h
      cases h
  | some text =>
      rw [htext] at h
      refine ⟨dropMark text, by rw [Template.ofBytes?, htext, Option.map_some], ?_⟩
      simp only [ofText] at h ⊢
      split at h
      · next hparse => rw [hparse]
      · next hproblems _ =>
          simp only [success, failed, List.isEmpty_iff, List.map_eq_nil_iff] at h
          exact (hproblems h).elim

/-- A tree with one declaration, the class of the template at a path with the given bytes. -/
def Source.Tree.IsOf (tree : Tree) (file : String × List UInt8) : Prop :=
  tree.path = file.1 ∧
    ∃ t d, Template.ofBytes? file.2 = some t ∧ tree.types = [d] ∧ d.typeDef = t.type file.1 []

theorem isOf_of_parse_eq {application : String} {file : String × List UInt8} {tree : Tree}
    (hsuccess : (GeneratedUnit.ofBytes application file.1 file.2).success = true)
    (h : Source.parse (GeneratedUnit.ofBytes application file.1 file.2).path
      (GeneratedUnit.ofBytes application file.1 file.2).code = .ok tree) :
    tree.IsOf file := by
  obtain ⟨source, htemplate, hunit⟩ := GeneratedUnit.exists_template_of_success hsuccess
  obtain ⟨d, hparse, herase⟩ := Template.parse_code application file.1 source
  rw [hunit] at h
  obtain rfl := Except.ok.inj (hparse.symm.trans h)
  refine ⟨rfl, _, d, htemplate, rfl, ?_⟩
  rw [← typeDef_erase, herase, typeDef_erase, Template.typeDef_declaration]

/-- The trees of a compilation of templates are those of the templates, in order. -/
theorem forall₂_isOf {application : String} {files : List (String × List UInt8)}
    {references : List (Except Diagnostic Module)} {c : Compilation}
    (hsuccess : ∀ f ∈ files, (GeneratedUnit.ofBytes application f.1 f.2).success = true)
    (h : Compilation.ofUnits (files.map fun f => GeneratedUnit.ofBytes application f.1 f.2)
      references = .ok c) :
    List.Forall₂ (fun f tree => tree.IsOf f) files c.trees := by
  have hparse := Compilation.forall₂_parse h
  have hall : ∀ u ∈ files.map fun f => GeneratedUnit.ofBytes application f.1 f.2,
      u.success = true := List.forall_mem_map.mpr hsuccess
  rw [List.filter_eq_self.mpr hall, List.forall₂_map_left_iff] at hparse
  have hboth := (List.forall₂_and_left _ _).mpr ⟨hsuccess, hparse⟩
  exact hboth.imp fun f tree hf => isOf_of_parse_eq hf.1 hf.2

/-! ## The module -/

theorem typeKind_injective : Function.Injective Source.DeclarationKind.typeKind := by
  rintro (_ | _) (_ | _) h <;> cases h <;> rfl

/-- Whether a class is a page can be told from its type. -/
theorem isPageClass_congr {symbols : Symbols} {d d' : Declaration} (h : d.typeDef = d'.typeDef) :
    symbols.isPageClass d = symbols.isPageClass d' := by
  have hname : d.name = d'.name := congrArg TypeDef.name h
  have hkind : d.kind = d'.kind := typeKind_injective (congrArg TypeDef.kind h)
  have hbases : d.bases.map BaseRef.name = d'.bases.map BaseRef.name := congrArg TypeDef.bases h
  have hany (e : Declaration) : symbols.baseImplements e Module.pageMarker
      = (e.bases.map BaseRef.name).any fun b => symbols.implements b Module.pageMarker := by
    rw [List.any_map]
    rfl
  rw [Symbols.isPageClass, Symbols.isPageClass, hname, hkind, hany, hany, hbases]

theorem typeDefs_tagTree (symbols : Symbols) {tree : Tree} {file : String × List UInt8}
    (h : tree.IsOf file) :
    ∃ t, Template.ofBytes? file.2 = some t ∧
      (tagTree symbols tree).types.map Declaration.typeDef =
        [t.type file.1
          (if symbols.isPageClass (t.declaration file.1) then
            [{ name := Module.viewPathAttribute, args := [file.1] }] else [])] := by
  obtain ⟨hpath, t, d, htemplate, htypes, hd⟩ := h
  refine ⟨t, htemplate, ?_⟩
  rw [← isPageClass_congr (hd.trans (Template.typeDef_declaration file.1 t).symm)]
  simp only [tagTree, htypes, hpath, tagTypes]
  split
  · rw [if_neg Bool.false_ne_true, List.map_singleton, typeDef_tagged, hd]
    rfl
  · rw [List.map_singleton, hd]

theorem forall₂_flatMap {α β γ : Type} {R : α → γ → Prop} {f : β → List γ} {as : List α}
    {bs : List β} (h : List.Forall₂ (fun a b => ∃ c, f b = [c] ∧ R a c) as bs) :
    List.Forall₂ R as (bs.flatMap f) := by
  induction h with
  | nil => exact .nil
  | cons hb _ ih =>
      obtain ⟨c, hc, hR⟩ := hb
      rw [List.flatMap_cons, hc, List.singleton_append]
      exact .cons hR ih

/-- The types of a compilation of templates, in order, with the tags they get. -/
theorem forall₂_types_tagged {application : String} {files : List (String × List UInt8)}
    {references : List (Except Diagnostic Module)} {c : Compilation}
    (hsuccess : ∀ f ∈ files, (GeneratedUnit.ofBytes application f.1 f.2).success = true)
    (h : Compilation.ofUnits (files.map fun f => GeneratedUnit.ofBytes application f.1 f.2)
      references = .ok c) :
    List.Forall₂
      (fun f type => ∃ t, Template.ofBytes? f.2 = some t ∧
        type = t.type f.1
          (if c.symbols.isPageClass (t.declaration f.1) then
            [{ name := Module.viewPathAttribute, args := [f.1] }] else []))
      files c.tagged.types := by
  rw [Compilation.types, Compilation.tagged, List.flatMap_map]
  refine forall₂_flatMap ((forall₂_isOf hsuccess h).imp fun f tree hf => ?_)
  obtain ⟨t, htemplate, htypes⟩ := typeDefs_tagTree c.symbols hf
  exact ⟨_, htypes, t, htemplate, rfl⟩

end ViewPress
