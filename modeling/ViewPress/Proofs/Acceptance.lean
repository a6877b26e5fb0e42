import ViewPress.Proofs.Outcomes
import ViewPress.Proofs.Printing
import ViewPress.Proofs.Spans

/-!
# What the parser accepts

Whatever the parser reads has a derivation. `Took ts rest taken spans nodes` says that
going from `ts` to `rest` uses up lexemes with the tokens `taken`, in which the parts
with these spans are the nodes of the derivation; two such steps make one, so the proof
for a parsing function follows its `do` block and puts the tokens of its parts together
in the order in which the grammar has them. No budget occurs here: a loop that runs out
of its budget either reports an error or stops reading, and what it has read until then
has a derivation all the same.

Together with the converse, that lexemes with a derivation are read, this pins the
parser down. It accepts a source if and only if the source is cut into tokens that
have a derivation; there is one derivation then, and the tree is that of it. So
whatever stands between the tokens matters to nothing but the spans of the tree.
-/

namespace ViewPress.Source

open ViewPress.Source.Derivation (bang braces dot)

/-! ## Steps through the lexemes -/

/-- The lexemes in front of `rest` have the tokens `taken`, and among them stand the nodes
with these spans. -/
def Took (ts rest : List Lexeme) (taken : List Token) (spans : List Span)
    (nodes : List (List Token)) : Prop :=
  ∃ us, ts = us ++ rest ∧ us.map Lexeme.token = taken ∧ Covers us spans nodes

variable {ts us rest : List Lexeme} {taken more : List Token} {spans spans' : List Span}
  {nodes nodes' : List (List Token)}

theorem Took.nil (ts : List Lexeme) : Took ts ts [] [] [] :=
  ⟨[], rfl, rfl, .nil⟩

theorem Took.cons (h : Took ts rest taken spans nodes) (l : Lexeme) :
    Took (l :: ts) rest (l.token :: taken) spans nodes := by
  obtain ⟨us, rfl, rfl, hcovers⟩ := h
  exact ⟨l :: us, rfl, rfl, hcovers.skip l⟩

theorem Took.trans (h : Took ts us taken spans nodes) (hmore : Took us rest more spans' nodes') :
    Took ts rest (taken ++ more) (spans ++ spans') (nodes ++ nodes') := by
  obtain ⟨us, rfl, rfl, hcovers⟩ := h
  obtain ⟨vs, rfl, rfl, hcovers'⟩ := hmore
  exact ⟨us ++ vs, (List.append_assoc _ _ _).symm, List.map_append, hcovers.append hcovers'⟩

theorem Took.tokens (h : Took ts rest taken spans nodes) :
    ts.map Lexeme.token = taken ++ rest.map Lexeme.token := by
  obtain ⟨us, rfl, rfl, -⟩ := h
  exact List.map_append

/-- All that is taken is one node. -/
theorem Took.node (l : Lexeme) (us rest : List Lexeme) {span : Span}
    (hspan : (∀ m ∈ l :: us, m.Narrow) → span = cover l us) :
    Took (l :: us ++ rest) rest ((l :: us).map Lexeme.token) [span]
      [(l :: us).map Lexeme.token] := by
  refine ⟨l :: us, rfl, rfl, ?_⟩
  have hcovers := Covers.node hspan .nil
  rwa [List.append_nil] at hcovers

/-! ## Single tokens -/

theorem expectPunct_eq {c : Char} {ts rest : List Lexeme} {span : Span}
    (h : expectPunct c ts = .ok (span, rest)) : ts = ⟨.punct c, span⟩ :: rest := by
  unfold expectPunct at h
  split at h
  · split at h
    · next hc =>
        cases h
        rw [hc]
    · cases h
  · cases h

theorem expectPunct_took {c : Char} {ts rest : List Lexeme} {span : Span}
    (h : expectPunct c ts = .ok (span, rest)) : Took ts rest [.punct c] [] [] := by
  obtain rfl := expectPunct_eq h
  exact (Took.nil rest).cons _

theorem expectIdent_eq {x : String} {ts rest : List Lexeme} {span : Span}
    (h : expectIdent ts = .ok ((x, span), rest)) : ts = ⟨.ident x, span⟩ :: rest := by
  unfold expectIdent at h
  split at h
  · cases h
    rfl
  · cases h

theorem expectIdent_took {x : String} {ts rest : List Lexeme} {span : Span}
    (h : expectIdent ts = .ok ((x, span), rest)) : Took ts rest [.ident x] [] [] := by
  obtain rfl := expectIdent_eq h
  exact (Took.nil rest).cons _

theorem expectString_took {text : String} {ts rest : List Lexeme}
    (h : expectString ts = .ok (text, rest)) : Took ts rest [.str text] [] [] := by
  unfold expectString at h
  split at h
  · cases h
    exact (Took.nil _).cons _
  · cases h

theorem expectIn_took {ts rest : List Lexeme} (h : expectIn ts = .ok ((), rest)) :
    Took ts rest [.ident "in"] [] [] := by
  unfold expectIn at h
  split at h
  · split at h
    · next hname =>
        cases h
        rw [hname]
        exact (Took.nil _).cons _
    · cases h
  · cases h

/-! ## Names -/

theorem exists_of_parseSegments {stop last : Nat} {ts rest : List Lexeme} {xs : List String}
    (h : parseSegments stop ts = .ok ((xs, last), rest)) :
    ∃ us, ts = us ++ rest ∧ us.map Lexeme.token = xs.flatMap dot ∧ last = lastStop stop us := by
  fun_induction parseSegments stop ts generalizing xs with
  | case1 stop span name span' ts ih =>
      obtain ⟨⟨⟨names, last⟩, us⟩, hnames, h⟩ := exists_ok_of_bind h
      cases h
      obtain ⟨us, rfl, htokens, hlast⟩ := ih hnames
      refine ⟨⟨.punct '.', span⟩ :: ⟨.ident name, span'⟩ :: us, rfl, ?_, hlast⟩
      rw [List.map_cons, List.map_cons, htokens]
      rfl
  | case2 => cases h
  | case3 =>
      cases h
      exact ⟨[], rfl, rfl, rfl⟩

theorem parseDotted_took {ts rest : List Lexeme} {xs : List String} {span : Span}
    (h : parseDotted ts = .ok ((xs, span), rest)) :
    ∃ n : Derivation.Name, n.segments = xs ∧ Took ts rest n.tokens [span] [n.tokens] := by
  obtain ⟨⟨⟨first, span⟩, us⟩, hfirst, h⟩ := exists_ok_of_bind h
  obtain ⟨⟨⟨names, last⟩, vs⟩, hnames, h⟩ := exists_ok_of_bind h
  cases h
  obtain rfl := expectIdent_eq hfirst
  obtain ⟨us, rfl, htokens, rfl⟩ := exists_of_parseSegments hnames
  have htook := Took.node ⟨.ident first, span⟩ us rest fun _ => rfl
  rw [List.map_cons, htokens] at htook
  exact ⟨⟨first, names⟩, rfl, htook⟩

theorem parsePath_took {ts rest : List Lexeme} {path : ValuePath}
    (h : parsePath ts = .ok (path, rest)) :
    ∃ n : Derivation.Name, path.erase = { segments := n.segments } ∧
      Took ts rest n.tokens [path.span] [n.tokens] := by
  obtain ⟨⟨⟨segments, span⟩, us⟩, hdotted, h⟩ := exists_ok_of_bind h
  cases h
  obtain ⟨n, rfl, htook⟩ := parseDotted_took hdotted
  exact ⟨n, rfl, htook⟩

theorem takeBang_took (ts : List Lexeme) :
    ∃ negate us, takeBang ts = (negate, us) ∧ Took ts us (bang negate) [] [] := by
  unfold takeBang
  split
  · exact ⟨true, _, rfl, (Took.nil _).cons _⟩
  · exact ⟨false, ts, rfl, Took.nil ts⟩

/-! ## Statements -/

theorem Took.block {ts us rest : List Lexeme} {span : Span} {inner : List Token}
    (hopen : expectPunct '{' ts = .ok (span, us))
    (h : Took us rest (inner ++ [.punct '}']) spans nodes) :
    Took ts rest (braces inner) spans nodes :=
  (expectPunct_took hopen).trans h

mutual

theorem parseStatements_took {n : Nat} {ts rest : List Lexeme} {ss : List Statement}
    (h : parseStatements n ts = .ok (ss, rest)) :
    ∃ ds, eraseStatements ss = Derivation.statementsTree ds ∧
      Took ts rest (Derivation.statementsTokens ds ++ [.punct '}']) (statementsSpans ss)
        (Derivation.statementsNodes ds) := by
  unfold parseStatements at h
  split at h
  · cases h
  · cases h
    refine ⟨[], ?_, ?_⟩
    · rw [eraseStatements, Derivation.statementsTree]
    · rw [Derivation.statementsTokens, statementsSpans, Derivation.statementsNodes]
      exact (Took.nil _).cons _
  · obtain ⟨⟨s, us⟩, hs, h⟩ := exists_ok_of_bind h
    obtain ⟨⟨ss, vs⟩, hss, h⟩ := exists_ok_of_bind h
    cases h
    obtain ⟨d, herase, htook⟩ := parseStatement_took hs
    obtain ⟨ds, herases, htooks⟩ := parseStatements_took hss
    refine ⟨d :: ds, ?_, ?_⟩
    · rw [eraseStatements, herase, herases, Derivation.statementsTree]
    · rw [Derivation.statementsTokens, List.append_assoc, statementsSpans,
        Derivation.statementsNodes]
      exact htook.trans htooks

theorem parseStatement_took {n : Nat} {ts rest : List Lexeme} {s : Statement}
    (h : parseStatement n ts = .ok (s, rest)) :
    ∃ d : Derivation.Statement, s.erase = d.tree ∧ Took ts rest d.tokens s.spans d.nodes := by
  unfold parseStatement at h
  split at h
  · cases h
  next n word span us =>
    split at h
    · next hword =>
        subst hword
        obtain ⟨⟨text, vs⟩, htext, h⟩ := exists_ok_of_bind h
        obtain ⟨⟨semicolon, ws⟩, hend, h⟩ := exists_ok_of_bind h
        cases h
        refine ⟨.write text, ?_, ?_⟩
        · rw [Statement.erase, Derivation.Statement.tree]
        · rw [Derivation.Statement.tokens, Statement.spans, Derivation.Statement.nodes]
          exact ((expectString_took htext).trans (expectPunct_took hend)).cons _
    split at h
    · next hword =>
        subst hword
        obtain ⟨⟨path, vs⟩, hpath, h⟩ := exists_ok_of_bind h
        obtain ⟨⟨semicolon, ws⟩, hend, h⟩ := exists_ok_of_bind h
        cases h
        obtain ⟨name, herase, hname⟩ := parsePath_took hpath
        refine ⟨.emit name, ?_, ?_⟩
        · rw [Statement.erase, herase, Derivation.Statement.tree]
        · rw [Derivation.Statement.tokens, Statement.spans, Derivation.Statement.nodes]
          exact (hname.trans (expectPunct_took hend)).cons _
    split at h
    · next hword =>
        subst hword
        obtain ⟨negate, vs, hbang, hmark⟩ := takeBang_took us
        rw [hbang] at h
        obtain ⟨⟨cond, ws⟩, hpath, h⟩ := exists_ok_of_bind h
        obtain ⟨⟨brace, xs⟩, hopen, h⟩ := exists_ok_of_bind h
        obtain ⟨⟨yes, ys⟩, hblock, h⟩ := exists_ok_of_bind h
        obtain ⟨name, hcond, hname⟩ := parsePath_took hpath
        obtain ⟨ds, hyes, hinner⟩ := parseStatements_took hblock
        have hif := ((hmark.cons ⟨.ident "if", span⟩).trans hname).trans (hinner.block hopen)
        dsimp only at h
        split at h
        · obtain ⟨⟨brace, zs⟩, hopen, h⟩ := exists_ok_of_bind h
          obtain ⟨⟨no, rest⟩, hblock, h⟩ := exists_ok_of_bind h
          cases h
          obtain ⟨es, hno, hother⟩ := parseStatements_took hblock
          refine ⟨.branchElse negate name ds es, ?_, ?_⟩
          · rw [Statement.erase, hcond, hyes, hno, Derivation.Statement.tree]
          · rw [Derivation.Statement.tokens, Statement.spans, Derivation.Statement.nodes]
            exact hif.trans ((hother.block hopen).cons _)
        · cases h
          refine ⟨.branch negate name ds, ?_, ?_⟩
          · rw [Statement.erase, hcond, hyes, Derivation.Statement.tree]
          · rw [Derivation.Statement.tokens, Statement.spans, Derivation.Statement.nodes]
            exact hif
    split at h
    · next hword =>
        subst hword
        obtain ⟨⟨⟨binding, bindingSpan⟩, vs⟩, hbinding, h⟩ := exists_ok_of_bind h
        obtain ⟨⟨⟨⟩, ws⟩, hin, h⟩ := exists_ok_of_bind h
        obtain ⟨⟨source, xs⟩, hpath, h⟩ := exists_ok_of_bind h
        obtain ⟨⟨brace, ys⟩, hopen, h⟩ := exists_ok_of_bind h
        obtain ⟨⟨body, zs⟩, hblock, h⟩ := exists_ok_of_bind h
        cases h
        obtain ⟨name, hsource, hname⟩ := parsePath_took hpath
        obtain ⟨ds, hbody, hinner⟩ := parseStatements_took hblock
        have hhead := (expectIdent_took hbinding).trans (expectIn_took hin)
        refine ⟨.forEach binding name ds, ?_, ?_⟩
        · rw [Statement.erase, hsource, hbody, Derivation.Statement.tree]
        · rw [Derivation.Statement.tokens, Statement.spans, Derivation.Statement.nodes]
          exact ((hhead.cons _).trans hname).trans (hinner.block hopen)
    · cases h
  · cases h

end

/-! ## Attributes -/

theorem parseArgs_took {ts rest : List Lexeme} {texts : List String}
    (h : parseArgs ts = .ok (texts, rest)) :
    ∃ args : Derivation.Args, args.texts = texts ∧
      Took ts rest (args.tokens ++ [.punct ')']) [] [] := by
  fun_induction parseArgs ts generalizing texts with
  | case1 span us =>
      cases h
      exact ⟨.nil, rfl, (Took.nil _).cons _⟩
  | case2 text span span' us ih =>
      obtain ⟨⟨texts, vs⟩, htexts, h⟩ := exists_ok_of_bind h
      cases h
      obtain ⟨args, rfl, htook⟩ := ih htexts
      exact ⟨.cons text args, rfl, (htook.cons _).cons _⟩
  | case3 text span us _ =>
      obtain ⟨⟨span, vs⟩, hclose, h⟩ := exists_ok_of_bind h
      cases h
      exact ⟨.one text, rfl, (expectPunct_took hclose).cons _⟩
  | case4 => cases h

theorem parseParens_took {ts rest : List Lexeme} {texts : List String}
    (h : parseParens ts = .ok (texts, rest)) :
    ∃ parens : Option Derivation.Args, (parens.map Derivation.Args.texts).getD [] = texts ∧
      Took ts rest (Derivation.parensTokens parens) [] [] := by
  unfold parseParens at h
  split at h
  · obtain ⟨args, rfl, htook⟩ := parseArgs_took h
    exact ⟨some args, rfl, htook.cons _⟩
  · cases h
    exact ⟨none, rfl, .nil _⟩

theorem lastStop_append (stop : Nat) (us : List Lexeme) (l : Lexeme) :
    lastStop stop (us ++ [l]) = l.span.stop := by
  induction us generalizing stop with
  | nil => rfl
  | cons m us ih => exact ih _

/-- An attribute is read from after its `#`, and its span goes to its closing bracket. -/
theorem parseAttribute_took {ts rest : List Lexeme} {a : Attribute} {span : Span}
    (h : parseAttribute span.start ts = .ok (a, rest)) :
    ∃ d : Derivation.Attribute, a.erase = d.tree ∧
      Took (⟨.punct '#', span⟩ :: ts) rest d.tokens [a.span] [d.tokens] := by
  obtain ⟨⟨open', us⟩, hopen, h⟩ := exists_ok_of_bind h
  obtain ⟨⟨⟨names, nameSpan⟩, vs⟩, hdotted, h⟩ := exists_ok_of_bind h
  obtain ⟨⟨args, ws⟩, hargs, h⟩ := exists_ok_of_bind h
  obtain ⟨⟨close, xs⟩, hclose, h⟩ := exists_ok_of_bind h
  cases h
  obtain ⟨name, rfl, hname⟩ := parseDotted_took hdotted
  obtain ⟨parens, rfl, hparens⟩ := parseParens_took hargs
  obtain rfl := expectPunct_eq hclose
  obtain ⟨inner, rfl, htokens, -⟩ := ((expectPunct_took hopen).trans hname).trans hparens
  refine ⟨⟨name, parens⟩, rfl, ?_⟩
  have hspan (hnarrow : ∀ m ∈ ⟨.punct '#', span⟩ :: (inner ++ [⟨.punct ']', close⟩]), m.Narrow) :
      ⟨span.start, close.start + 1 - span.start⟩
        = cover ⟨.punct '#', span⟩ (inner ++ [⟨.punct ']', close⟩]) := by
    have hlen : close.len = 1 := hnarrow ⟨.punct ']', close⟩ (by simp) ']' rfl
    rw [cover, lastStop_append, Span.stop, hlen]
  have htook := Took.node _ _ rest hspan
  rw [List.map_cons, List.map_append, htokens] at htook
  simpa [Derivation.Attribute.tokens] using htook

theorem parseAttributes_took {n : Nat} {ts rest : List Lexeme} {as : List Attribute}
    (h : parseAttributes n ts = .ok (as, rest)) :
    ∃ ds : List Derivation.Attribute,
      as.map Attribute.erase = ds.map Derivation.Attribute.tree ∧
      Took ts rest (ds.flatMap Derivation.Attribute.tokens) (as.map (·.span))
        (ds.map Derivation.Attribute.tokens) := by
  fun_induction parseAttributes n ts generalizing as with
  | case1 n span us ih =>
      obtain ⟨⟨a, vs⟩, ha, h⟩ := exists_ok_of_bind h
      obtain ⟨⟨as, ws⟩, has, h⟩ := exists_ok_of_bind h
      cases h
      obtain ⟨d, herase, htook⟩ := parseAttribute_took ha
      obtain ⟨ds, herases, htooks⟩ := ih vs has
      exact ⟨d :: ds, by rw [List.map_cons, herase, herases, List.map_cons], htook.trans htooks⟩
  | case2 =>
      cases h
      exact ⟨[], rfl, .nil _⟩

/-! ## Declarations -/

theorem parseBases_took {n : Nat} {ts rest : List Lexeme} {bases : List BaseRef}
    (h : parseBases n ts = .ok (bases, rest)) :
    ∃ (base : Derivation.Name) (more : List Derivation.Name),
      bases.map BaseRef.erase
        = (base :: more).map (fun n => { name := Text.joinDots n.segments }) ∧
      Took ts rest (base.tokens ++ more.flatMap Derivation.furtherBase) (bases.map (·.span))
        ((base :: more).map Derivation.Name.tokens) := by
  induction n generalizing ts bases with
  | zero => cases h
  | succ n ih =>
      obtain ⟨⟨⟨names, span⟩, us⟩, hdotted, h⟩ := exists_ok_of_bind h
      obtain ⟨base, rfl, hbase⟩ := parseDotted_took hdotted
      dsimp only at h
      split at h
      · obtain ⟨⟨bases, vs⟩, hbases, h⟩ := exists_ok_of_bind h
        cases h
        obtain ⟨next, more, herase, hmore⟩ := ih hbases
        exact ⟨base, next :: more, by rw [List.map_cons, herase]; rfl,
          hbase.trans (hmore.cons _)⟩
      · cases h
        refine ⟨base, [], rfl, ?_⟩
        rw [List.flatMap_nil, List.append_nil]
        exact hbase

theorem parseHeritage_took {n : Nat} {ts rest : List Lexeme} {bases : List BaseRef}
    (h : parseHeritage n ts = .ok (bases, rest)) :
    ∃ ns : List Derivation.Name,
      bases.map BaseRef.erase = ns.map (fun n => { name := Text.joinDots n.segments }) ∧
      Took ts rest (Derivation.heritageTokens ns) (bases.map (·.span))
        (ns.map Derivation.Name.tokens) := by
  unfold parseHeritage at h
  split at h
  · obtain ⟨base, more, herase, htook⟩ := parseBases_took h
    exact ⟨base :: more, herase, htook.cons _⟩
  · cases h
    exact ⟨[], rfl, .nil _⟩

theorem parseMembers_took {n : Nat} {ts rest : List Lexeme} {render : Option (List Statement)}
    (h : parseMembers n ts = .ok (render, rest)) :
    ∃ block : Option (List Derivation.Statement),
      render.map eraseStatements = block.map Derivation.statementsTree ∧
      Took ts rest (Derivation.renderTokens block ++ [.punct '}'])
        ((render.map statementsSpans).getD [])
        ((block.map Derivation.statementsNodes).getD []) := by
  unfold parseMembers at h
  split at h
  · cases h
    exact ⟨none, rfl, (Took.nil _).cons _⟩
  · obtain ⟨⟨span, us⟩, hopen, h⟩ := exists_ok_of_bind h
    obtain ⟨⟨block, vs⟩, hblock, h⟩ := exists_ok_of_bind h
    obtain ⟨ds, herase, htook⟩ := parseStatements_took hblock
    dsimp only at h
    split at h
    · cases h
      refine ⟨some ds, by rw [Option.map_some, herase, Option.map_some], ?_⟩
      simpa [Derivation.renderTokens] using
        ((htook.block hopen).cons ⟨.ident "render", _⟩).trans ((Took.nil _).cons ⟨.punct '}', _⟩)
    · cases h
    · cases h
  · cases h

theorem parseKind_took {ts rest : List Lexeme} {kind : DeclarationKind}
    (h : parseKind ts = .ok (kind, rest)) : Took ts rest [.ident kind.keyword] [] [] := by
  unfold parseKind at h
  split at h
  · cases h
    exact (Took.nil _).cons _
  · cases h
    exact (Took.nil _).cons _
  · cases h

theorem parseDeclaration_took {n : Nat} {ts rest : List Lexeme} {d : Declaration}
    (h : parseDeclaration n ts = .ok (d, rest)) :
    ∃ d' : Derivation.Declaration, d.erase = d'.tree ∧ Took ts rest d'.tokens d.spans d'.nodes := by
  obtain ⟨⟨attributes, us⟩, hattributes, h⟩ := exists_ok_of_bind h
  obtain ⟨⟨kind, vs⟩, hkind, h⟩ := exists_ok_of_bind h
  obtain ⟨⟨⟨names, span⟩, ws⟩, hdotted, h⟩ := exists_ok_of_bind h
  obtain ⟨⟨bases, xs⟩, hbases, h⟩ := exists_ok_of_bind h
  obtain ⟨⟨openSpan, ys⟩, hopen, h⟩ := exists_ok_of_bind h
  obtain ⟨⟨render, zs⟩, hrender, h⟩ := exists_ok_of_bind h
  cases h
  obtain ⟨as, has, hattributes⟩ := parseAttributes_took hattributes
  obtain ⟨name, rfl, hname⟩ := parseDotted_took hdotted
  obtain ⟨ns, hns, hheritage⟩ := parseHeritage_took hbases
  obtain ⟨block, hblock, hmembers⟩ := parseMembers_took hrender
  refine ⟨⟨as, kind, name, ns, block⟩, ?_, ?_⟩
  · rw [Declaration.erase, has, hns, hblock, Derivation.Declaration.tree]
  · have hhead := ((hattributes.trans ((parseKind_took hkind).trans hname)).trans hheritage)
    have hbody := (expectPunct_took hopen).trans hmembers
    simpa [Derivation.Declaration.tokens, Declaration.spans, Derivation.Declaration.nodes,
      List.append_assoc] using hhead.trans hbody

theorem parseTypes_took {n : Nat} {ts : List Lexeme} {types : List Declaration}
    (h : parseTypes n ts = .ok types) :
    ∃ ds, types.map Declaration.erase = ds.map Derivation.Declaration.tree ∧
      Took ts [] (Derivation.typesTokens ds) (types.flatMap Declaration.spans)
        (ds.flatMap Derivation.Declaration.nodes) := by
  fun_induction parseTypes n ts generalizing types with
  | case1 =>
      cases h
      exact ⟨[], rfl, Took.nil []⟩
  | case2 => cases h
  | case3 n ts _ ih =>
      obtain ⟨⟨d, us⟩, hd, h⟩ := exists_ok_of_bind h
      obtain ⟨types, htypes, h⟩ := exists_ok_of_bind h
      cases h
      obtain ⟨d', herase, htook⟩ := parseDeclaration_took hd
      obtain ⟨ds, herases, htooks⟩ := ih us htypes
      exact ⟨d' :: ds, by rw [List.map_cons, herase, herases, List.map_cons], htook.trans htooks⟩

/-! ## Sources -/

/-- A source that is parsed is cut into lexemes up to its end. -/
theorem exists_parseLexemes_of_parse {path source : String} {tree : Tree}
    (h : parse path source = .ok tree) :
    tree.path = path ∧ tree.source = source ∧
      ∃ lexemes stop, TokenStream.ofSource source = { lexemes, ending := .eof stop } ∧
        parseLexemes lexemes = .ok tree.types := by
  unfold parse at h
  split at h
  · next types hparse =>
      cases h
      unfold TokenStream.parse at hparse
      split at hparse
      · next types stop hlexemes hending =>
          cases hparse
          exact ⟨rfl, rfl, _, stop, by rw [← hending], hlexemes⟩
      · cases hparse
      · split at hparse <;> cases hparse
  · cases h

/-- All the lexemes of a source that is parsed were taken. -/
theorem exists_took_of_parse {path source : String} {tree : Tree}
    (h : parse path source = .ok tree) :
    tree.path = path ∧ tree.source = source ∧
      ∃ lexemes stop ds, TokenStream.ofSource source = { lexemes, ending := .eof stop } ∧
        tree.types.map Declaration.erase = ds.map Derivation.Declaration.tree ∧
        Took lexemes [] (Derivation.typesTokens ds) (tree.types.flatMap Declaration.spans)
          (ds.flatMap Derivation.Declaration.nodes) := by
  obtain ⟨hpath, hsource, lexemes, stop, hlex, hparse⟩ := exists_parseLexemes_of_parse h
  obtain ⟨ds, herase, htook⟩ := parseTypes_took hparse
  exact ⟨hpath, hsource, lexemes, stop, ds, hlex, herase, htook⟩

/-- A source that is parsed has a derivation, and its tree is the tree of the derivation. -/
theorem exists_derivation_of_parse {path source : String} {tree : Tree}
    (h : parse path source = .ok tree) :
    tree.path = path ∧ tree.source = source ∧
      ∃ ds, Tokenizes source (Derivation.typesTokens ds) ∧
        tree.types.map Declaration.erase = ds.map Derivation.Declaration.tree := by
  obtain ⟨hpath, hsource, lexemes, stop, ds, hlex, herase, htook⟩ := exists_took_of_parse h
  refine ⟨hpath, hsource, ds, ⟨lexemes, stop, hlex, ?_⟩, herase⟩
  rw [htook.tokens, List.map_nil, List.append_nil]

/-- A source with a derivation is parsed. -/
theorem exists_parse_of_tokenizes {source : String} {ds : List Derivation.Declaration}
    (h : Tokenizes source (Derivation.typesTokens ds)) (path : String) :
    ∃ types, parse path source = .ok { path, source, types } ∧
      types.map Declaration.erase = ds.map Derivation.Declaration.tree :=
  (tokenizes_iff_spells.mp h).reads.parse_eq (Derivation.spells_types ds) path

/-- The declarations that a source is parsed to, with no part of them standing anywhere. -/
def parsedTypes? (path source : String) : Option (List Declaration) :=
  (parse path source).toOption.map fun tree => tree.types.map Declaration.erase

theorem parsedTypes?_eq_some_iff {path source : String} {types : List Declaration} :
    parsedTypes? path source = some types ↔
      ∃ ds, Tokenizes source (Derivation.typesTokens ds) ∧
        ds.map Derivation.Declaration.tree = types := by
  constructor
  · intro h
    obtain ⟨tree, hparse, rfl⟩ := Option.map_eq_some_iff.mp h
    cases htree : parse path source with
    | error e =>
        rw [htree] at hparse
        cases hparse
    | ok tree' =>
        rw [htree] at hparse
        cases hparse
        obtain ⟨-, -, ds, htokens, herase⟩ := exists_derivation_of_parse htree
        exact ⟨ds, htokens, herase.symm⟩
  · rintro ⟨ds, htokens, rfl⟩
    obtain ⟨types, hparse, herase⟩ := exists_parse_of_tokenizes htokens path
    rw [parsedTypes?, hparse]
    exact congrArg some herase

/-- Two sources with the same tokens are parsed to the same declarations, or both to none. -/
theorem parsedTypes?_congr {path path' source source' : String} {tokens : List Token}
    (h : Tokenizes source tokens) (h' : Tokenizes source' tokens) :
    parsedTypes? path source = parsedTypes? path' source' := by
  refine Option.ext fun types => ?_
  rw [parsedTypes?_eq_some_iff, parsedTypes?_eq_some_iff]
  constructor
  · rintro ⟨ds, hds, htree⟩
    exact ⟨ds, by rwa [hds.unique h], htree⟩
  · rintro ⟨ds, hds, htree⟩
    exact ⟨ds, by rwa [hds.unique h'], htree⟩

/-- The parser accepts exactly the grammar. A source is parsed if and only if the lexer cuts
all of it into tokens and the tokens have a derivation. The derivation is the only one, and
the tree is the tree of it. Two texts that spell the same tokens, with whatever blanks and
comments between them, are parsed to the same declarations up to spans, or both are not. -/
theorem parse_accepts_grammar (path source : String) :
    ((∃ tree, parse path source = .ok tree) ↔
      ∃ tokens, Tokenizes source tokens ∧ ∃ ds, Derivation.typesTokens ds = tokens) ∧
    (∀ tree, parse path source = .ok tree →
      tree.path = path ∧ tree.source = source ∧
        ∃ ds, Tokenizes source (Derivation.typesTokens ds) ∧
          tree.types.map Declaration.erase = ds.map Derivation.Declaration.tree ∧
          ∀ ds', Tokenizes source (Derivation.typesTokens ds') → ds' = ds) ∧
    (∀ path' source' tokens, Spells source.toList tokens → Spells source'.toList tokens →
      parsedTypes? path source = parsedTypes? path' source') := by
  refine ⟨⟨?_, ?_⟩, ?_, ?_⟩
  · rintro ⟨tree, hparse⟩
    obtain ⟨-, -, ds, htokens, -⟩ := exists_derivation_of_parse hparse
    exact ⟨_, htokens, ds, rfl⟩
  · rintro ⟨-, htokens, ds, rfl⟩
    obtain ⟨types, hparse, -⟩ := exists_parse_of_tokenizes htokens path
    exact ⟨_, hparse⟩
  · intro tree hparse
    obtain ⟨hpath, hsource, ds, htokens, herase⟩ := exists_derivation_of_parse hparse
    refine ⟨hpath, hsource, ds, htokens, herase, fun ds' htokens' => ?_⟩
    exact Derivation.typesTokens_injective (htokens'.unique htokens)
  · intro path' source' tokens h h'
    exact parsedTypes?_congr (tokenizes_iff_spells.mpr h) (tokenizes_iff_spells.mpr h')

/-- Two texts with keywords as names that differ in blanks and comments. -/
theorem parse_accepts_grammar_comments :
    let close := "class if\x7brender\x7bemit in.for;\x7d\x7d"
    let wide := "// \"\n class if \x7b render\t\x7b emit in // .x\n . for ; \x7d \x7d //"
    let d : Derivation.Declaration :=
      { attributes := [], kind := .classType, name := ⟨"if", []⟩, bases := [],
        render := some [.emit ⟨"in", ["for"]⟩] }
    Tokenizes wide (Derivation.typesTokens [d]) ∧
      (∃ tree, parse "a.tpl" wide = .ok tree ∧ tree.types.map Declaration.erase = [d.tree] ∧
        ∀ ds, Tokenizes wide (Derivation.typesTokens ds) → ds = [d]) ∧
      parsedTypes? "a.tpl" wide = parsedTypes? "b.tpl" close := by
  intro close wide d
  have htokens {source : String} (stop : Nat)
      (h : (TokenStream.ofSource source).lexemes.map Lexeme.token = Derivation.typesTokens [d] ∧
        (TokenStream.ofSource source).ending = .eof stop) :
      Tokenizes source (Derivation.typesTokens [d]) :=
    ⟨_, stop, by rw [← h.2], h.1⟩
  have hwide : Tokenizes wide (Derivation.typesTokens [d]) := htokens 55 (by decide +kernel)
  have hclose : Tokenizes close (Derivation.typesTokens [d]) := htokens 30 (by decide +kernel)
  obtain ⟨haccepts, htree, hspell⟩ := parse_accepts_grammar "a.tpl" wide
  obtain ⟨tree, hparse⟩ := haccepts.mpr ⟨_, hwide, [d], rfl⟩
  obtain ⟨-, -, ds, -, herase, hunique⟩ := htree tree hparse
  obtain rfl := hunique [d] hwide
  refine ⟨hwide, ⟨tree, hparse, herase, hunique⟩, ?_⟩
  exact hspell "b.tpl" close _ (tokenizes_iff_spells.mp hwide) (tokenizes_iff_spells.mp hclose)

/-! ## Spans -/

/-- The spans of a parsed tree are exact. In the order of the text they belong to the
attributes, names, bases and paths of the derivation. Each is a range of whole characters of
the source, and these characters alone, with whatever blanks and comments are among them,
are cut into the tokens of the part they belong to. Each span starts behind the end of the
one before it. -/
theorem parse_spans_exact {path source : String} {tree : Tree}
    (h : parse path source = .ok tree) :
    ∃ ds, Tokenizes source (Derivation.typesTokens ds) ∧
      tree.types.map Declaration.erase = ds.map Derivation.Declaration.tree ∧
      List.Forall₂ (Exhibits source) (tree.types.flatMap Declaration.spans)
        (ds.flatMap Derivation.Declaration.nodes) ∧
      (tree.types.flatMap Declaration.spans).Pairwise fun a b =>
        a.start < b.start ∧ a.stop ≤ b.start := by
  obtain ⟨-, -, lexemes, stop, ds, hlex, herase, htook⟩ := exists_took_of_parse h
  obtain ⟨us, rfl, htaken, hcovers⟩ := htook
  rw [List.append_nil] at hlex
  obtain ⟨before, tail, -, hlaid, -, -⟩ := laid_of_lex hlex
  obtain ⟨hshows, hpairwise, -⟩ := hcovers.shows hlaid
  exact ⟨ds, ⟨us, stop, hlex, htaken⟩, herase, hshows.imp fun _ _ => Shows.exhibits, hpairwise⟩

/-- An attribute with a comment and a string of several bytes, and a name over two lines. -/
theorem parse_spans_exact_comments :
    let source := "#[A // ]\n(\"é\",)]class B // .\n . C:D\x7brender\x7bemit x\n.y;\x7d\x7d"
    ∃ tree, parse "a.tpl" source = .ok tree ∧
      tree.types.flatMap Declaration.spans = [⟨0, 17⟩, ⟨23, 11⟩, ⟨35, 1⟩, ⟨49, 4⟩] ∧
      ∃ ds, Tokenizes source (Derivation.typesTokens ds) ∧
        List.Forall₂ (Exhibits source) [⟨0, 17⟩, ⟨23, 11⟩, ⟨35, 1⟩, ⟨49, 4⟩]
          (ds.flatMap Derivation.Declaration.nodes) := by
  intro source
  have hspans : (parse "a.tpl" source).toOption.map
      (fun tree => tree.types.flatMap Declaration.spans)
        = some [⟨0, 17⟩, ⟨23, 11⟩, ⟨35, 1⟩, ⟨49, 4⟩] := by
    decide +kernel
  obtain ⟨tree, htree, hspans⟩ := Option.map_eq_some_iff.mp hspans
  have hparse := eq_ok_of_toOption htree
  obtain ⟨ds, htokens, -, hshows, -⟩ := parse_spans_exact hparse
  rw [hspans] at hshows
  exact ⟨tree, hparse, hspans, ds, htokens, hshows⟩

end ViewPress.Source
