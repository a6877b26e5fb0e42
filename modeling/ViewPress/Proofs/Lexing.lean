import ViewPress.Source.Printer
import ViewPress.Source.Token

/-!
# Lexemes in front of a text

What the lexer makes of a text is built up here from the end of the text to its
front. `Reads cs tokens` says that the whole of `cs` is cut into `tokens`,
wherever `cs` starts; every other statement adds one thing in front of such a
text: a blank, a comment, an identifier, a string literal, a punctuation mark.
Offsets never matter to which tokens come out, so they are quantified away in
`Reads` itself and no later proof carries them along.

Only the identifier needs to know what follows it, because a longer run of
letters would be another identifier. `WordEnds` is that condition.
-/

namespace ViewPress.Source

open Text (byteSize isBlank isIdent isIdentStart isIdentRest)

/-- The text is cut into these tokens and nothing else, from any offset on. -/
def Reads (cs : List Char) (tokens : List Token) : Prop :=
  ∀ pos, ∃ lexemes stop,
    TokenStream.lex pos cs = { lexemes, ending := .eof stop }
      ∧ lexemes.map Lexeme.token = tokens

/-- An identifier in front of the text ends where the text begins. -/
def WordEnds (cs : List Char) : Prop :=
  ∀ c ∈ cs.head?, isIdentRest c = false

theorem wordEnds_cons {c : Char} {cs : List Char} (hc : isIdentRest c = false) :
    WordEnds (c :: cs) := by
  intro d hd
  obtain rfl : c = d := by simpa using hd
  exact hc

/-! ## One step of the lexer -/

theorem lex_of_lexeme {pos stop : Nat} {cs rest : List Char} {l : Lexeme}
    (h : front pos cs = .lexeme l stop rest) :
    TokenStream.lex pos cs = (TokenStream.lex stop rest).cons l := by
  rw [TokenStream.lex]
  split
  · next heq => rw [h] at heq; cases heq; rfl
  · next heq => rw [h] at heq; cases heq

theorem lex_of_ending {pos : Nat} {cs : List Char} {e : Ending} (h : front pos cs = .ending e) :
    TokenStream.lex pos cs = { lexemes := [], ending := e } := by
  rw [TokenStream.lex]
  split
  · next heq => rw [h] at heq; cases heq
  · next heq => rw [h] at heq; cases heq; rfl

theorem lex_congr {pos pos' : Nat} {cs cs' : List Char} (h : front pos cs = front pos' cs') :
    TokenStream.lex pos cs = TokenStream.lex pos' cs' := by
  cases hf : front pos' cs' with
  | lexeme l stop rest => rw [lex_of_lexeme (h.trans hf), lex_of_lexeme hf]
  | ending e => rw [lex_of_ending (h.trans hf), lex_of_ending hf]

theorem skipTrivia_of_not_blank {pos : Nat} {c : Char} {cs : List Char}
    (hb : isBlank c = false) (hslash : c ≠ '/') :
    skipTrivia pos (c :: cs) = (pos, c :: cs) := by
  rw [skipTrivia.eq_def]
  split
  · next heq =>
      cases heq
      exact absurd rfl hslash
  · next heq =>
      cases heq
      rw [if_neg (by rw [hb]; exact Bool.false_ne_true)]
  · next heq => cases heq

theorem skipTrivia_of_blank {pos : Nat} {c : Char} {cs : List Char} (hb : isBlank c = true) :
    skipTrivia pos (c :: cs) = skipTrivia (pos + c.utf8Size) cs := by
  rw [skipTrivia.eq_def]
  split
  · next heq =>
      cases heq
      exact absurd hb (by decide)
  · next heq =>
      cases heq
      rw [if_pos hb]
  · next heq => cases heq

theorem skipComment_line {line : List Char} (hline : '\n' ∉ line) (pos : Nat) (cs : List Char) :
    skipComment pos (line ++ '\n' :: cs) = skipTrivia (pos + byteSize line + 1) cs := by
  induction line generalizing pos with
  | nil => rw [List.nil_append, skipComment, byteSize, Nat.add_zero]
  | cons c line ih =>
      rw [List.mem_cons, not_or] at hline
      rw [List.cons_append, skipComment, ih hline.2, byteSize, Nat.add_assoc pos]
      intro hc
      exact absurd hc.symm hline.1

theorem skipComment_of_notMem {line : List Char} (hline : '\n' ∉ line) (pos : Nat) :
    skipComment pos line = (pos + byteSize line, []) := by
  induction line generalizing pos with
  | nil => rw [skipComment, byteSize, Nat.add_zero]
  | cons c line ih =>
      rw [List.mem_cons, not_or] at hline
      rw [skipComment, ih hline.2, byteSize, Nat.add_assoc]
      intro hc
      exact absurd hc.symm hline.1

theorem front_eq_scanLexeme {pos : Nat} {c : Char} {cs : List Char}
    (hb : isBlank c = false) (hslash : c ≠ '/') :
    front pos (c :: cs) = scanLexeme pos (c :: cs) := by
  rw [front, skipTrivia_of_not_blank hb hslash]

/-! ## One thing in front -/

theorem reads_nil : Reads [] [] := by
  intro pos
  exact ⟨[], pos, lex_of_ending (by rw [front, skipTrivia.eq_def]; rfl), rfl⟩

theorem Reads.of_skip {cs cs' : List Char} {tokens : List Token} (h : Reads cs tokens)
    (hskip : ∀ pos, ∃ pos', skipTrivia pos cs' = skipTrivia pos' cs) : Reads cs' tokens := by
  intro pos
  obtain ⟨pos', heq⟩ := hskip pos
  have hfront : front pos cs' = front pos' cs := by rw [front, front, heq]
  rw [lex_congr hfront]
  exact h pos'

theorem Reads.blank {c : Char} {cs : List Char} {tokens : List Token} (hb : isBlank c = true)
    (h : Reads cs tokens) : Reads (c :: cs) tokens :=
  h.of_skip fun pos => ⟨pos + c.utf8Size, skipTrivia_of_blank hb⟩

theorem Reads.blanks {bs cs : List Char} {tokens : List Token}
    (hb : ∀ c ∈ bs, isBlank c = true) (h : Reads cs tokens) : Reads (bs ++ cs) tokens := by
  induction bs with
  | nil => exact h
  | cons b bs ih =>
      exact Reads.blank (hb b List.mem_cons_self) (ih fun c hc => hb c (List.mem_cons_of_mem b hc))

theorem Reads.comment {line cs : List Char} {tokens : List Token} (hline : '\n' ∉ line)
    (h : Reads cs tokens) : Reads ('/' :: '/' :: (line ++ '\n' :: cs)) tokens := by
  refine h.of_skip fun pos => ⟨pos + 2 + byteSize line + 1, ?_⟩
  rw [skipTrivia.eq_def]
  exact skipComment_line hline (pos + 2) cs

/-- One lexeme in front: the lexer finds it at once, and goes on with the rest. -/
theorem Reads.lexeme {cs rest : List Char} {token : Token} {tokens : List Token}
    (h : Reads rest tokens)
    (hfront : ∀ pos, ∃ span stop, front pos cs = .lexeme { token, span } stop rest) :
    Reads cs (token :: tokens) := by
  intro pos
  obtain ⟨span, stop, heq⟩ := hfront pos
  obtain ⟨lexemes, eof, hrest, htokens⟩ := h stop
  refine ⟨{ token, span } :: lexemes, eof, ?_, ?_⟩
  · rw [lex_of_lexeme heq, hrest, TokenStream.cons]
  · rw [List.map_cons, htokens]

theorem toNat_bounds_of_isIdentRest {c : Char} (h : isIdentRest c = true) :
    48 ≤ c.toNat ∧ c.toNat ≤ 122 := by
  have halpha : c.isAlpha = (c.isUpper || c.isLower) := rfl
  have hupper : c.isUpper = decide ('A'.val ≤ c.val ∧ c.val ≤ 'Z'.val) := rfl
  have hlower : c.isLower = (decide ('a'.val ≤ c.val) && decide (c.val ≤ 'z'.val)) := rfl
  simp only [isIdentRest, Char.isAlphanum, halpha, hupper, hlower, Char.isDigit,
    Bool.or_eq_true, Bool.and_eq_true, decide_eq_true_eq, beq_iff_eq, UInt32.le_iff_toNat_le,
    ge_iff_le, Char.toNat_val, Char.reduceToNat] at h
  rcases h with ((h | h) | h) | rfl
  · omega
  · omega
  · omega
  · decide

theorem isIdentRest_of_isIdentStart {c : Char} (h : isIdentStart c = true) :
    isIdentRest c = true := by
  simp only [isIdentStart, isIdentRest, Char.isAlphanum, Bool.or_eq_true] at h ⊢
  rcases h with h | h
  · exact Or.inl (Or.inl h)
  · exact Or.inr h

theorem isIdentRest_of_isIdent {name : List Char} (h : isIdent name = true) :
    ∀ c ∈ name, isIdentRest c = true := by
  cases name with
  | nil => cases h
  | cons c name =>
      rw [isIdent, Bool.and_eq_true, List.all_eq_true] at h
      exact List.forall_mem_cons.mpr ⟨isIdentRest_of_isIdentStart h.1, h.2⟩

theorem not_blank_of_isIdentRest {c : Char} (h : isIdentRest c = true) :
    isBlank c = false ∧ c ≠ '/' := by
  have hbounds := toNat_bounds_of_isIdentRest h
  constructor
  · simp only [isBlank, Bool.or_eq_false_iff, Bool.and_eq_false_iff, decide_eq_false_iff_not,
      beq_eq_false_iff_ne]
    omega
  · rintro rfl
    exact absurd hbounds.1 (by decide)

theorem Reads.punct {c : Char} {cs : List Char} {tokens : List Token} (hc : isPunct c = true)
    (h : Reads cs tokens) : Reads (c :: cs) (.punct c :: tokens) := by
  -- The marks are few, so each side condition of the scanner is settled by trying them all.
  have hmark : isBlank c = false ∧ c ≠ '/' ∧ isIdentStart c = false ∧ c ≠ '"' := by
    simp only [isPunct, List.mem_cons, List.not_mem_nil, or_false, decide_eq_true_eq] at hc
    rcases hc with rfl | rfl | rfl | rfl | rfl | rfl | rfl | rfl | rfl | rfl | rfl | rfl <;> decide
  obtain ⟨hb, hslash, hstart, hquote⟩ := hmark
  refine h.lexeme fun pos => ⟨{ start := pos, len := 1 }, pos + 1, ?_⟩
  rw [front_eq_scanLexeme hb hslash]
  simp only [scanLexeme, hstart, hquote, hc, Bool.false_eq_true, if_false, if_true]

theorem takeWhile_append_of_wordEnds {name cs : List Char}
    (hname : ∀ c ∈ name, isIdentRest c = true) (hcs : WordEnds cs) :
    (name ++ cs).takeWhile isIdentRest = name ∧ (name ++ cs).dropWhile isIdentRest = cs := by
  rw [List.takeWhile_append_of_pos hname, List.dropWhile_append_of_pos hname]
  cases cs with
  | nil => exact ⟨List.append_nil _, rfl⟩
  | cons c cs =>
      have hc : isIdentRest c = false := hcs c rfl
      rw [List.takeWhile_cons_of_neg (by rw [hc]; exact Bool.false_ne_true),
        List.dropWhile_cons_of_neg (by rw [hc]; exact Bool.false_ne_true)]
      exact ⟨List.append_nil _, rfl⟩

theorem Reads.ident {name cs : List Char} {tokens : List Token} (hname : isIdent name = true)
    (hcs : WordEnds cs) (h : Reads cs tokens) :
    Reads (name ++ cs) (.ident (String.ofList name) :: tokens) := by
  cases name with
  | nil => exact absurd hname (by decide)
  | cons c name =>
      simp only [isIdent, Bool.and_eq_true, List.all_eq_true] at hname
      obtain ⟨hb, hslash⟩ := not_blank_of_isIdentRest (isIdentRest_of_isIdentStart hname.1)
      obtain ⟨htake, hdrop⟩ := takeWhile_append_of_wordEnds hname.2 hcs
      refine h.lexeme fun pos =>
        ⟨{ start := pos, len := (c :: name).length }, pos + (c :: name).length, ?_⟩
      rw [List.cons_append, front_eq_scanLexeme hb hslash]
      simp only [scanLexeme, hname.1, if_true, htake, hdrop]

/-! ## String literals -/

theorem scanString_escapeChar (c : Char) (pos : Nat) (cs : List Char) :
    ∃ pos', scanString pos (escapeChar c ++ cs) = (scanString pos' cs).push c := by
  unfold escapeChar
  split
  · exact ⟨_, rfl⟩
  · exact ⟨_, rfl⟩
  · exact ⟨_, rfl⟩
  · exact ⟨_, rfl⟩
  · exact ⟨_, rfl⟩
  · next hquote hslash _ _ _ =>
      refine ⟨pos + c.utf8Size, ?_⟩
      rw [List.singleton_append, scanString]
      · exact hquote
      · intro hc
        exact absurd hc hslash
      · intro e cs' hc
        exact absurd hc hslash

/-- An escaped text is read back to the quote that closes it. -/
theorem scanString_quoted (text cs : List Char) :
    ∀ pos, ∃ stop, scanString pos (text.flatMap escapeChar ++ '"' :: cs)
      = .closed text stop cs := by
  induction text with
  | nil =>
      intro pos
      exact ⟨pos + 1, by rw [List.flatMap_nil, List.nil_append, scanString]⟩
  | cons c text ih =>
      intro pos
      rw [List.flatMap_cons, List.append_assoc]
      obtain ⟨pos', hc⟩ := scanString_escapeChar c pos (text.flatMap escapeChar ++ '"' :: cs)
      obtain ⟨stop, hrest⟩ := ih pos'
      exact ⟨stop, by rw [hc, hrest, StringScan.push]⟩

theorem Reads.str {cs : List Char} {tokens : List Token} (h : Reads cs tokens) (text : String) :
    Reads ((quote text).toList ++ cs) (.str text :: tokens) := by
  refine h.lexeme fun pos => ?_
  obtain ⟨stop, hscan⟩ := scanString_quoted text.toList cs (pos + 1)
  refine ⟨{ start := pos, len := stop - pos }, stop, ?_⟩
  have hchars : (quote text).toList ++ cs
      = '"' :: (text.toList.flatMap escapeChar ++ '"' :: cs) := by
    simp [quote]
  rw [hchars, front_eq_scanLexeme (by decide) (by decide), scanLexeme,
    if_neg (by decide), if_pos rfl, hscan]
  dsimp only
  rw [String.ofList_toList]

end ViewPress.Source
