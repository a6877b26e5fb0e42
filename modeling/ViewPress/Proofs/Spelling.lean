import ViewPress.Proofs.Layout

/-!
# How tokens are written

`Spells cs tokens` is the lexical grammar: a text spells tokens if it consists of
them in order, each written in one of the ways in which it can be written, with
blanks and comments anywhere between two of them, in front and at the end. A string
has many spellings, because a line break may stand in a literal as it is or as an
escape. The one condition on neighbours is that an identifier must end where the
next token begins.

The lexer decides this relation. One direction adds one thing after the other in
front of a text and rests on `Reads`; the other forgets where the lexer has laid its
lexemes out. Since the relation knows nothing of offsets, neither does the answer.
-/

namespace ViewPress.Source

open Text (byteSize isBlank isIdent)

/-- The text consists of the tokens in order, with blanks and comments between them. -/
inductive Spells : List Char → List Token → Prop where
  | nil : Spells [] []
  | blank {c : Char} {cs : List Char} {tokens : List Token} (hc : isBlank c = true)
      (h : Spells cs tokens) : Spells (c :: cs) tokens
  | comment {line cs : List Char} {tokens : List Token} (hline : '\n' ∉ line)
      (h : Spells cs tokens) : Spells ('/' :: '/' :: (line ++ '\n' :: cs)) tokens
  | lastComment {line : List Char} (hline : '\n' ∉ line) : Spells ('/' :: '/' :: line) []
  | ident {name cs : List Char} {tokens : List Token} (hname : isIdent name = true)
      (hcs : WordEnds cs) (h : Spells cs tokens) :
      Spells (name ++ cs) (.ident (String.ofList name) :: tokens)
  | str {literal text cs : List Char} {tokens : List Token} (hliteral : Literal literal text)
      (h : Spells cs tokens) : Spells ('"' :: literal ++ cs) (.str (String.ofList text) :: tokens)
  | punct {c : Char} {cs : List Char} {tokens : List Token} (hc : isPunct c = true)
      (h : Spells cs tokens) : Spells (c :: cs) (.punct c :: tokens)

/-! ## The lexer reads what is spelled -/

theorem Literal.scanString_eq {literal text : List Char} (h : Literal literal text)
    (cs : List Char) : ∀ pos, ∃ stop, scanString pos (literal ++ cs) = .closed text stop cs := by
  induction h with
  | close =>
      intro pos
      exact ⟨pos + 1, by rw [List.singleton_append, scanString]⟩
  | @escape e c _ _ he _ ih =>
      intro pos
      obtain ⟨stop, hrest⟩ := ih (pos + 1 + e.utf8Size)
      refine ⟨stop, ?_⟩
      rw [List.cons_append, List.cons_append, scanString, he]
      dsimp only
      rw [hrest, StringScan.push]
  | @plain c _ _ hquote hslash _ ih =>
      intro pos
      obtain ⟨stop, hrest⟩ := ih (pos + c.utf8Size)
      refine ⟨stop, ?_⟩
      rw [List.cons_append, scanString, hrest, StringScan.push]
      · exact hquote
      · intro hc
        exact absurd hc hslash
      · intro e cs' hc
        exact absurd hc hslash

theorem Reads.literal {literal text cs : List Char} {tokens : List Token}
    (hliteral : Literal literal text) (h : Reads cs tokens) :
    Reads ('"' :: literal ++ cs) (.str (String.ofList text) :: tokens) := by
  refine h.lexeme fun pos => ?_
  obtain ⟨stop, hscan⟩ := hliteral.scanString_eq cs (pos + 1)
  refine ⟨{ start := pos, len := stop - pos }, stop, ?_⟩
  rw [List.cons_append, front_eq_scanLexeme (by decide) (by decide), scanLexeme,
    if_neg (by decide), if_pos rfl, hscan]

theorem reads_lastComment {line : List Char} (hline : '\n' ∉ line) :
    Reads ('/' :: '/' :: line) [] := by
  refine reads_nil.of_skip fun pos => ⟨pos + 2 + byteSize line, ?_⟩
  rw [skipTrivia.eq_def, skipTrivia.eq_def]
  exact skipComment_of_notMem hline (pos + 2)

theorem Spells.reads {cs : List Char} {tokens : List Token} (h : Spells cs tokens) :
    Reads cs tokens := by
  induction h with
  | nil => exact reads_nil
  | blank hc _ ih => exact ih.blank hc
  | comment hline _ ih => exact ih.comment hline
  | lastComment hline => exact reads_lastComment hline
  | ident hname hcs _ ih => exact Reads.ident hname hcs ih
  | str hliteral _ ih => exact Reads.literal hliteral ih
  | punct hc _ ih => exact ih.punct hc

/-! ## What the lexer reads is spelled -/

theorem eq_nil_of_spells_nil {tokens : List Token} (h : Spells [] tokens) : tokens = [] := by
  generalize hcs : ([] : List Char) = cs at h
  cases h with
  | nil => rfl
  | lastComment => rfl
  | blank | comment | str | punct => cases hcs
  | ident hname =>
      obtain ⟨rfl, -⟩ := List.append_eq_nil_iff.mp hcs.symm
      cases hname

/-- Blanks and comments in front of a text do not change what it spells. -/
theorem Spells.gap {gap cs : List Char} {tokens : List Token} (hgap : Gap cs gap)
    (h : Spells cs tokens) : Spells (gap ++ cs) tokens := by
  induction hgap with
  | nil => exact h
  | blank hc _ ih => exact .blank hc ih
  | comment hline _ ih =>
      rw [List.cons_append, List.cons_append, List.append_assoc, List.cons_append]
      exact .comment hline ih
  | lastComment hline hrest =>
      subst hrest
      rw [eq_nil_of_spells_nil h, List.append_nil]
      exact .lastComment hline

theorem Spells.token {body cs : List Char} {token : Token} {tokens : List Token}
    (hbody : Writes body token) (hends : token.Ends cs) (h : Spells cs tokens) :
    Spells (body ++ cs) (token :: tokens) := by
  cases hbody with
  | ident hname => exact .ident hname (hends _ rfl) h
  | str hliteral => exact .str hliteral h
  | punct hc => exact .punct hc h

theorem Laid.spells {pos : Nat} {cs tail : List Char} {lexemes : List Lexeme}
    (h : Laid pos cs lexemes tail) (htail : Gap [] tail) :
    Spells cs (lexemes.map Lexeme.token) := by
  induction h with
  | nil pos tail =>
      have hspells := Spells.gap htail .nil
      rwa [List.append_nil] at hspells
  | cons hgap hbody hends _ ih => exact .gap hgap (.token hbody hends (ih htail))

/-- A text that is cut into lexemes up to its end spells their tokens. -/
theorem spells_of_lex {pos stop : Nat} {cs : List Char} {lexemes : List Lexeme}
    (h : TokenStream.lex pos cs = { lexemes, ending := .eof stop }) :
    Spells cs (lexemes.map Lexeme.token) := by
  obtain ⟨before, tail, -, hlaid, -, heof⟩ := laid_of_lex h
  exact hlaid.spells (heof stop rfl)

/-- The source is cut into these tokens, with no fault on the way to its end. -/
def Tokenizes (source : String) (tokens : List Token) : Prop :=
  ∃ lexemes stop, TokenStream.ofSource source = { lexemes, ending := .eof stop } ∧
    lexemes.map Lexeme.token = tokens

/-- The lexer accepts exactly the texts that spell tokens, and finds these tokens. -/
theorem tokenizes_iff_spells {source : String} {tokens : List Token} :
    Tokenizes source tokens ↔ Spells source.toList tokens := by
  constructor
  · rintro ⟨lexemes, stop, hlex, rfl⟩
    exact spells_of_lex hlex
  · intro h
    exact h.reads 0

theorem Tokenizes.unique {source : String} {tokens tokens' : List Token}
    (h : Tokenizes source tokens) (h' : Tokenizes source tokens') : tokens = tokens' := by
  obtain ⟨lexemes, stop, hlex, rfl⟩ := h
  obtain ⟨lexemes', stop', hlex', rfl⟩ := h'
  rw [hlex] at hlex'
  cases hlex'
  rfl

theorem Spells.isIdent {cs : List Char} {tokens : List Token} (h : Spells cs tokens) {x : String}
    (hx : .ident x ∈ tokens) : isIdent x.toList = true := by
  induction h with
  | nil | lastComment => cases hx
  | blank _ _ ih | comment _ _ ih => exact ih hx
  | ident hname _ _ ih =>
      rcases List.mem_cons.mp hx with hx | hx
      · rw [Token.ident.inj hx, String.toList_ofList]
        exact hname
      · exact ih hx
  | str _ _ ih | punct _ _ ih =>
      rcases List.mem_cons.mp hx with hx | hx
      · cases hx
      · exact ih hx

end ViewPress.Source
