import ViewPress.Proofs.Lexing
import ViewPress.Proofs.Names
import ViewPress.Proofs.Parsing
import ViewPress.Source.Printer

/-!
# Printed trees read back

The printed form of a tree is cut into tokens that spell the tree, and the parser
reads what the grammar spells; so parsing undoes printing, up to spans. The
printer writes names as they are, which is why the names of a tree have to be
names of the language: `WellNamed` asks for that and for nothing else. Texts and
arguments of attributes are quoted and may hold any character.

The statements have the shape that `Reads` suggests. If the rest of a text is cut
into tokens, so is the rest with a printed phrase in front of it, and the new
tokens are a phrase of the grammar.
-/

namespace ViewPress.Source

open Text (IsDotted IsPath isBlank isIdent isIdentRest joinDots)

/-! ## Names -/

mutual

/-- Every value path of the statement consists of identifiers, and so does every variable. -/
def Statement.WellNamed : Statement → Prop
  | .write _ => True
  | .emit path => IsPath path.segments
  | .branch cond _ yes none => IsPath cond.segments ∧ WellNamedStatements yes
  | .branch cond _ yes (some no) =>
      IsPath cond.segments ∧ WellNamedStatements yes ∧ WellNamedStatements no
  | .forEach binding source body =>
      isIdent binding.toList = true ∧ IsPath source.segments ∧ WellNamedStatements body

def WellNamedStatements : List Statement → Prop
  | [] => True
  | s :: rest => s.WellNamed ∧ WellNamedStatements rest

end

/-- All names of a declaration are names of the language. -/
structure Declaration.WellNamed (d : Declaration) : Prop where
  name : IsDotted d.name
  bases : ∀ b ∈ d.bases, IsDotted b.name
  attributes : ∀ a ∈ d.attributes, IsDotted a.name
  render : ∀ block ∈ d.render, WellNamedStatements block

theorem Reads.word {x : String} {cs : List Char} {tokens : List Token}
    (hx : isIdent x.toList = true) (hcs : WordEnds cs) (h : Reads cs tokens) :
    Reads (x.toList ++ cs) (.ident x :: tokens) := by
  have hread := Reads.ident hx hcs h
  rwa [String.ofList_toList] at hread

/-- A keyword and the blank after it. -/
theorem Reads.keyword {x : String} {cs : List Char} {tokens : List Token}
    (hx : isIdent x.toList = true) (h : Reads cs tokens) :
    Reads (x.toList ++ ' ' :: cs) (.ident x :: tokens) :=
  Reads.word hx (wordEnds_cons (by decide)) (h.blank (by decide))

theorem Reads.dotted {segments : List String} {cs : List Char} {tokens : List Token}
    (hpath : IsPath segments) (hcs : WordEnds cs) (h : Reads cs tokens) :
    ∃ ns, Grammar.Name ns segments ∧ Reads ((joinDots segments).toList ++ cs) (ns ++ tokens) := by
  obtain ⟨hne, hident⟩ := hpath
  induction segments with
  | nil => exact absurd rfl hne
  | cons x xs ih =>
      have hx := hident x List.mem_cons_self
      cases xs with
      | nil =>
          refine ⟨[.ident x], .ident x, ?_⟩
          have hchars : (joinDots [x]).toList = x.toList := by simp [joinDots]
          rw [hchars]
          exact Reads.word hx hcs h
      | cons y ys =>
          obtain ⟨ns, hns, hread⟩ :=
            ih (List.cons_ne_nil y ys) fun z hz => hident z (List.mem_cons_of_mem x hz)
          refine ⟨.ident x :: .punct '.' :: ns, .dot x hns, ?_⟩
          have hchars : (joinDots (x :: y :: ys)).toList ++ cs
              = x.toList ++ '.' :: ((joinDots (y :: ys)).toList ++ cs) := by
            simp [joinDots, String.toList_intercalate]
          rw [hchars]
          exact Reads.word hx (wordEnds_cons (by decide)) (hread.punct (by decide))

/-! ## Statements -/

theorem Reads.indent {cs : List Char} {tokens : List Token} (h : Reads cs tokens)
    (depth : Nat) : Reads ((indent depth).toList ++ cs) tokens := by
  rw [Source.indent, String.toList_ofList]
  refine h.blanks fun c hc => ?_
  rw [List.eq_of_mem_replicate hc]
  decide

/-- A printed phrase in front of a text that is cut into tokens: the tokens of the phrase
come in front of the others. -/
def Prints (text : String) (phrase : List Token → Prop) : Prop :=
  ∀ ⦃cs : List Char⦄ ⦃tokens : List Token⦄, Reads cs tokens →
    ∃ us, phrase us ∧ Reads (text.toList ++ cs) (us ++ tokens)

theorem Prints.block {inner : String} {ss : List Statement}
    (h : Prints inner (Grammar.Statements · ss)) (depth : Nat) :
    Prints ("\x7b\n" ++ inner ++ indent depth ++ "\x7d") (Grammar.Block · ss) := by
  intro cs tokens hcs
  obtain ⟨us, hus, hread⟩ := h ((hcs.punct (c := '}') (by decide)).indent depth)
  refine ⟨_, .braces hus, ?_⟩
  have hopen := (hread.blank (c := '\n') (by decide)).punct (c := '{') (by decide)
  simpa [List.append_assoc] using hopen

/-- A condition with its mark, up to and with the blank before its block. -/
theorem prints_condition (negate : Bool) {segments : List String} (hpath : IsPath segments) :
    Prints ((if negate then "!" else "") ++ joinDots segments ++ " ") fun us =>
      ∃ ms ns, us = ms ++ ns ∧ Grammar.Bang ms negate ∧ Grammar.Name ns segments := by
  intro cs tokens hcs
  obtain ⟨ns, hns, hread⟩ :=
    (hcs.blank (c := ' ') (by decide)).dotted hpath (wordEnds_cons (by decide))
  cases negate with
  | false => exact ⟨ns, ⟨[], ns, rfl, .absent, hns⟩, by simpa [List.append_assoc] using hread⟩
  | true =>
      have hmark := hread.punct (c := '!') (by decide)
      exact ⟨_, ⟨[.punct '!'], ns, rfl, .present, hns⟩, by simpa [List.append_assoc] using hmark⟩

mutual

theorem Statement.prints (s : Statement) (hs : s.WellNamed) (depth : Nat) :
    Prints (s.print depth) (Grammar.Statement · s.erase) := by
  intro cs tokens hcs
  have hline : Reads ('\n' :: cs) tokens := hcs.blank (by decide)
  match s with
  | .write text =>
      refine ⟨_, .write text, ?_⟩
      have hread := (hline.punct (c := ';') (by decide)).str text
      have hword := (hread.keyword (x := "write") (by decide)).indent depth
      rw [Statement.print]
      simpa [List.append_assoc] using hword
  | .emit path =>
      rw [Statement.WellNamed] at hs
      obtain ⟨ns, hns, hread⟩ :=
        (hline.punct (c := ';') (by decide)).dotted hs (wordEnds_cons (by decide))
      refine ⟨_, .emit hns, ?_⟩
      have hword := (hread.keyword (x := "emit") (by decide)).indent depth
      rw [Statement.print, ValuePath.dotted]
      simpa [List.append_assoc] using hword
  | .branch cond negate yes none =>
      rw [Statement.WellNamed] at hs
      obtain ⟨bs, hbs, hblock⟩ := (prints_statements yes hs.2 (depth + 1)).block depth hline
      obtain ⟨us, ⟨ms, ns, rfl, hms, hns⟩, hread⟩ := prints_condition negate hs.1 hblock
      refine ⟨_, .branch hms hns hbs, ?_⟩
      have hword := (hread.keyword (x := "if") (by decide)).indent depth
      rw [Statement.print, ValuePath.dotted]
      simpa [List.append_assoc] using hword
  | .branch cond negate yes (some no) =>
      rw [Statement.WellNamed] at hs
      obtain ⟨es, hes, helse⟩ := (prints_statements no hs.2.2 (depth + 1)).block depth hline
      obtain ⟨bs, hbs, hblock⟩ := (prints_statements yes hs.2.1 (depth + 1)).block depth
        ((helse.keyword (x := "else") (by decide)).blank (c := ' ') (by decide))
      obtain ⟨us, ⟨ms, ns, rfl, hms, hns⟩, hread⟩ := prints_condition negate hs.1 hblock
      refine ⟨_, .branchElse hms hns hbs hes, ?_⟩
      have hword := (hread.keyword (x := "if") (by decide)).indent depth
      rw [Statement.print, ValuePath.dotted]
      simpa [List.append_assoc] using hword
  | .forEach binding source body =>
      rw [Statement.WellNamed] at hs
      obtain ⟨bs, hbs, hblock⟩ := (prints_statements body hs.2.2 (depth + 1)).block depth hline
      obtain ⟨ns, hns, hread⟩ :=
        (hblock.blank (c := ' ') (by decide)).dotted hs.2.1 (wordEnds_cons (by decide))
      refine ⟨_, .forEach binding hns hbs, ?_⟩
      have hword := (((hread.keyword (x := "in") (by decide)).keyword hs.1).keyword
        (x := "for") (by decide)).indent depth
      rw [Statement.print, ValuePath.dotted]
      simpa [List.append_assoc] using hword

theorem prints_statements (ss : List Statement) (hs : WellNamedStatements ss) (depth : Nat) :
    Prints (printStatements depth ss) (Grammar.Statements · (eraseStatements ss)) := by
  intro cs tokens hcs
  match ss with
  | [] =>
      refine ⟨[], .nil, ?_⟩
      rw [printStatements]
      exact hcs
  | s :: rest =>
      rw [WellNamedStatements] at hs
      obtain ⟨us, hus, hrest⟩ := prints_statements rest hs.2 depth hcs
      obtain ⟨vs, hvs, hread⟩ := s.prints hs.1 depth hrest
      refine ⟨vs ++ us, .cons hvs hus, ?_⟩
      rw [printStatements, String.toList_append, List.append_assoc, List.append_assoc]
      exact hread

end

/-! ## Declarations -/

theorem toList_intercalate_cons_cons (sep x y : String) (xs : List String) :
    (sep.intercalate (x :: y :: xs)).toList
      = x.toList ++ (sep.toList ++ (sep.intercalate (y :: xs)).toList) := by
  simp [String.toList_intercalate]

theorem prints_args {args : List String} (hne : args ≠ []) :
    Prints (", ".intercalate (args.map quote)) (Grammar.Args · args) := by
  induction args with
  | nil => exact absurd rfl hne
  | cons x xs ih =>
      intro cs tokens hcs
      cases xs with
      | nil =>
          refine ⟨_, .one x, ?_⟩
          simpa using hcs.str x
      | cons y ys =>
          obtain ⟨us, hus, hread⟩ := ih (List.cons_ne_nil y ys) hcs
          refine ⟨_, .cons x hus, ?_⟩
          have hcomma := ((hread.blank (c := ' ') (by decide)).punct (c := ',') (by decide)).str x
          rw [List.map_cons, List.map_cons, toList_intercalate_cons_cons, List.append_assoc]
          exact hcomma

theorem prints_parens (args : List String) :
    Prints (printArgs args) (Grammar.Parens · args) := by
  intro cs tokens hcs
  cases args with
  | nil => exact ⟨[], .absent, hcs⟩
  | cons x xs =>
      obtain ⟨us, hus, hread⟩ :=
        prints_args (List.cons_ne_nil x xs) (hcs.punct (c := ')') (by decide))
      refine ⟨_, .present hus, ?_⟩
      have hopen := hread.punct (c := '(') (by decide)
      rw [printArgs, List.isEmpty_cons, if_neg Bool.false_ne_true]
      simpa [List.append_assoc] using hopen

theorem wordEnds_parens (args : List String) {cs : List Char} (hcs : WordEnds cs) :
    WordEnds ((printArgs args).toList ++ cs) := by
  cases args with
  | nil => exact hcs
  | cons x xs =>
      rw [printArgs, List.isEmpty_cons, if_neg Bool.false_ne_true, String.toList_append,
        String.toList_append]
      exact wordEnds_cons (c := '(') (by decide)

theorem Attribute.prints (a : Attribute) (ha : IsDotted a.name) :
    Prints a.print (Grammar.Attribute · a.erase) := by
  intro cs tokens hcs
  obtain ⟨segments, hpath, hname⟩ := ha
  have hclose := (hcs.blank (c := '\n') (by decide)).punct (c := ']') (by decide)
  obtain ⟨ps, hps, hparens⟩ := prints_parens a.args hclose
  obtain ⟨ns, hns, hread⟩ :=
    hparens.dotted hpath (wordEnds_parens a.args (wordEnds_cons (by decide)))
  have hphrase := Grammar.Attribute.brackets hns hps
  rw [← hname] at hphrase hread
  refine ⟨_, hphrase, ?_⟩
  have hopen := (hread.punct (c := '[') (by decide)).punct (c := '#') (by decide)
  rw [Attribute.print]
  simpa [List.append_assoc] using hopen

theorem prints_attributes {as : List Attribute} (has : ∀ a ∈ as, IsDotted a.name) :
    Prints (String.join (as.map Attribute.print))
      (Grammar.Attributes · (as.map Attribute.erase)) := by
  induction as with
  | nil =>
      intro cs tokens hcs
      exact ⟨[], .nil, hcs⟩
  | cons a as ih =>
      intro cs tokens hcs
      obtain ⟨us, hus, hrest⟩ := ih (fun b hb => has b (List.mem_cons_of_mem a hb)) hcs
      obtain ⟨vs, hvs, hread⟩ := a.prints (has a List.mem_cons_self) hrest
      refine ⟨vs ++ us, .cons hvs hus, ?_⟩
      simpa [String.toList_join, List.append_assoc] using hread

theorem Reads.bases {bases : List BaseRef} (hne : bases ≠ [])
    (hnames : ∀ b ∈ bases, IsDotted b.name) {cs : List Char} {tokens : List Token}
    (hcs : WordEnds cs) (h : Reads cs tokens) :
    ∃ us, Grammar.Bases us (bases.map BaseRef.erase) ∧
      Reads ((", ".intercalate (bases.map BaseRef.name)).toList ++ cs) (us ++ tokens) := by
  induction bases with
  | nil => exact absurd rfl hne
  | cons b bs ih =>
      obtain ⟨segments, hpath, hname⟩ := hnames b List.mem_cons_self
      cases bs with
      | nil =>
          obtain ⟨ns, hns, hread⟩ := h.dotted hpath hcs
          refine ⟨ns, ?_, ?_⟩
          · rw [List.map_singleton, BaseRef.erase, hname]
            exact .one hns
          · simpa [hname] using hread
      | cons c bs =>
          obtain ⟨us, hus, hrest⟩ :=
            ih (List.cons_ne_nil c bs) fun d hd => hnames d (List.mem_cons_of_mem b hd)
          obtain ⟨ns, hns, hread⟩ :=
            ((hrest.blank (c := ' ') (by decide)).punct (c := ',') (by decide)).dotted hpath
              (wordEnds_cons (by decide))
          refine ⟨ns ++ .punct ',' :: us, ?_, ?_⟩
          · rw [List.map_cons, BaseRef.erase, hname]
            exact .cons hns hus
          · rw [List.map_cons, List.map_cons, toList_intercalate_cons_cons, hname,
              List.append_assoc, List.append_assoc, List.append_assoc]
            exact hread

/-- The bases of a declaration and the blank after them. -/
theorem Reads.heritage {bases : List BaseRef} (hnames : ∀ b ∈ bases, IsDotted b.name)
    {cs : List Char} {tokens : List Token} (h : Reads cs tokens) :
    ∃ us, Grammar.Heritage us (bases.map BaseRef.erase) ∧
      Reads ((printBases bases).toList ++ ' ' :: cs) (us ++ tokens) := by
  have hblank : Reads (' ' :: cs) tokens := h.blank (by decide)
  cases bases with
  | nil => exact ⟨[], .absent, hblank⟩
  | cons b bs =>
      obtain ⟨us, hus, hread⟩ :=
        hblank.bases (List.cons_ne_nil b bs) hnames (wordEnds_cons (by decide))
      refine ⟨_, .present hus, ?_⟩
      have hcolon := ((hread.blank (c := ' ') (by decide)).punct (c := ':') (by decide)).blank
        (c := ' ') (by decide)
      rw [printBases, List.isEmpty_cons, if_neg Bool.false_ne_true, String.toList_append,
        List.append_assoc]
      exact hcolon

theorem wordEnds_heritage (bases : List BaseRef) (cs : List Char) :
    WordEnds ((printBases bases).toList ++ ' ' :: cs) := by
  cases bases with
  | nil => exact wordEnds_cons (by decide)
  | cons b bs =>
      rw [printBases, List.isEmpty_cons, if_neg Bool.false_ne_true, String.toList_append]
      exact wordEnds_cons (c := ' ') (by decide)

theorem Reads.kind (kind : DeclarationKind) {cs : List Char} {tokens : List Token}
    (h : Reads cs tokens) :
    ∃ k, Grammar.Kind k kind ∧ Reads (kind.keyword.toList ++ ' ' :: cs) (k :: tokens) := by
  cases kind with
  | classType => exact ⟨_, .classType, h.keyword (by decide)⟩
  | interfaceType => exact ⟨_, .interfaceType, h.keyword (by decide)⟩

theorem prints_render {render : Option (List Statement)}
    (h : ∀ block ∈ render, WellNamedStatements block) :
    Prints (printRender render) (Grammar.Render · (render.map eraseStatements)) := by
  intro cs tokens hcs
  cases render with
  | none => exact ⟨[], .absent, hcs⟩
  | some block =>
      obtain ⟨us, hus, hread⟩ :=
        (prints_statements block (h block rfl) 2).block 1 (hcs.blank (c := '\n') (by decide))
      refine ⟨_, .present hus, ?_⟩
      have hword := (hread.keyword (x := "render") (by decide)).indent 1
      rw [printRender]
      simpa [List.append_assoc] using hword

theorem Declaration.prints (d : Declaration) (hd : d.WellNamed) :
    Prints d.print (Grammar.Declaration · d.erase) := by
  intro cs tokens hcs
  have hclose := (hcs.blank (c := '\n') (by decide)).punct (c := '}') (by decide)
  obtain ⟨rs, hrs, hrender⟩ := prints_render hd.render hclose
  have hopen := (hrender.blank (c := '\n') (by decide)).punct (c := '{') (by decide)
  obtain ⟨hs, hhs, hheritage⟩ := hopen.heritage hd.bases
  obtain ⟨segments, hpath, hname⟩ := hd.name
  obtain ⟨ns, hns, hdotted⟩ := hheritage.dotted hpath (wordEnds_heritage d.bases _)
  obtain ⟨k, hk, hkind⟩ := hdotted.kind d.kind
  obtain ⟨as, has, hread⟩ := prints_attributes hd.attributes hkind
  have hphrase := Grammar.Declaration.mk has hk hns hhs hrs
  rw [← hname] at hphrase hread
  refine ⟨_, hphrase, ?_⟩
  rw [Declaration.print]
  simpa [List.append_assoc] using hread

theorem prints_types {types : List Declaration} (h : ∀ d ∈ types, d.WellNamed) :
    Prints (printTypes types) (Grammar.Types · (types.map Declaration.erase)) := by
  induction types with
  | nil =>
      intro cs tokens hcs
      exact ⟨[], .nil, hcs⟩
  | cons d ds ih =>
      intro cs tokens hcs
      obtain ⟨us, hus, hrest⟩ := ih (fun e he => h e (List.mem_cons_of_mem d he)) hcs
      cases ds with
      | nil =>
          obtain ⟨vs, hvs, hread⟩ := d.prints (h d List.mem_cons_self) hcs
          refine ⟨vs ++ [], .cons hvs .nil, ?_⟩
          simpa [printTypes] using hread
      | cons e es =>
          obtain ⟨vs, hvs, hread⟩ :=
            d.prints (h d List.mem_cons_self) (hrest.blank (c := '\n') (by decide))
          refine ⟨vs ++ us, .cons hvs hus, ?_⟩
          rw [printTypes, List.map_cons, List.map_cons, toList_intercalate_cons_cons,
            List.append_assoc, List.append_assoc, List.append_assoc]
          exact hread

/-! ## Parsing undoes printing -/

/-- A source text is parsed to the declarations its tokens spell. -/
theorem Reads.parse_eq {source : String} {tokens : List Token} {types : List Declaration}
    (h : Reads source.toList tokens) (htypes : Grammar.Types tokens types) (path : String) :
    ∃ types', parse path source = .ok { path, source, types := types' } ∧
      types'.map Declaration.erase = types := by
  obtain ⟨lexemes, stop, hlex, htokens⟩ := h 0
  obtain ⟨types', hparse, herase⟩ := htypes.parseLexemes_eq htokens
  refine ⟨types', ?_, herase⟩
  rw [parse, TokenStream.ofSource, hlex, TokenStream.parse, hparse]

/-- Printed declarations behind a text that holds no token are parsed to themselves. -/
theorem parse_printTypes {types : List Declaration} (h : ∀ d ∈ types, d.WellNamed)
    {front : String}
    (hfront : ∀ ⦃cs : List Char⦄ ⦃tokens : List Token⦄,
      Reads cs tokens → Reads (front.toList ++ cs) tokens) (path : String) :
    ∃ types', parse path (front ++ printTypes types)
        = .ok { path, source := front ++ printTypes types, types := types' } ∧
      types'.map Declaration.erase = types.map Declaration.erase := by
  obtain ⟨us, hus, hread⟩ := prints_types h reads_nil
  rw [List.append_nil, List.append_nil] at hread
  have hsource : Reads (front ++ printTypes types).toList us := by
    rw [String.toList_append]
    exact hfront hread
  exact hsource.parse_eq hus path

end ViewPress.Source
