import ViewPress.Proofs.Lexing

/-!
# Where lexemes stand

`Laid pos cs lexemes tail` says how a text is cut: `cs`, whose first byte is at offset
`pos`, consists of the lexemes, each written in one of the ways in which its token can
be written, of gaps in front of them, and of `tail` behind the last; and the span of
each lexeme is where its characters are. The lexer lays its lexemes out in this sense,
and stops at an offset in what is left.

All that is used of the positions of lexemes follows from it: they stand one behind the
other, each has a byte of its own, and between any two of them the text is cut in two
at the end of a character.
-/

namespace ViewPress.Source

open Text (byteSize byteSize_append isBlank isIdent isIdentRest)

/-! ## How tokens are written -/

/-- The rest of a string literal, from after its opening quote on, and what it stands for. -/
inductive Literal : List Char → List Char → Prop where
  | close : Literal ['"'] []
  | escape {e c : Char} {cs text : List Char} (he : unescape e = some c) (h : Literal cs text) :
      Literal ('\\' :: e :: cs) (c :: text)
  | plain {c : Char} {cs text : List Char} (hquote : c ≠ '"') (hslash : c ≠ '\\')
      (h : Literal cs text) : Literal (c :: cs) (c :: text)

/-- One way to write a token. -/
inductive Writes : List Char → Token → Prop where
  | ident {name : List Char} (hname : isIdent name = true) :
      Writes name (.ident (String.ofList name))
  | str {literal text : List Char} (hliteral : Literal literal text) :
      Writes ('"' :: literal) (.str (String.ofList text))
  | punct {c : Char} (hc : isPunct c = true) : Writes [c] (.punct c)

/-- The token is over where the text begins. -/
def Token.Ends (token : Token) (cs : List Char) : Prop :=
  ∀ x, token = .ident x → WordEnds cs

/-- What may stand in front of the text `rest` without being part of a token: blanks and
comments, of which the last need not be closed by a line break at the end of everything. -/
inductive Gap (rest : List Char) : List Char → Prop where
  | nil : Gap rest []
  | blank {c : Char} {cs : List Char} (hc : isBlank c = true) (h : Gap rest cs) :
      Gap rest (c :: cs)
  | comment {line cs : List Char} (hline : '\n' ∉ line) (h : Gap rest cs) :
      Gap rest ('/' :: '/' :: (line ++ '\n' :: cs))
  | lastComment {line : List Char} (hline : '\n' ∉ line) (hrest : rest = []) :
      Gap rest ('/' :: '/' :: line)

/-- From offset `pos` on, the text consists of the lexemes where their spans say, with gaps
in front of them, and of `tail`. -/
inductive Laid : Nat → List Char → List Lexeme → List Char → Prop where
  | nil (pos : Nat) (tail : List Char) : Laid pos tail [] tail
  | cons {pos : Nat} {gap body cs tail : List Char} {token : Token} {lexemes : List Lexeme}
      (hgap : Gap (body ++ cs) gap) (hbody : Writes body token) (hends : token.Ends cs)
      (h : Laid (pos + byteSize gap + byteSize body) cs lexemes tail) :
      Laid pos (gap ++ (body ++ cs))
        (⟨token, { start := pos + byteSize gap, len := byteSize body }⟩ :: lexemes) tail

/-! ## Order -/

theorem Writes.ne_nil {body : List Char} {token : Token} (h : Writes body token) : body ≠ [] := by
  cases h with
  | ident hname =>
      rintro rfl
      cases hname
  | str | punct => exact List.cons_ne_nil _ _

theorem Laid.exists_append {pos : Nat} {cs tail : List Char} {lexemes : List Lexeme}
    (h : Laid pos cs lexemes tail) : ∃ before, cs = before ++ tail := by
  induction h with
  | nil => exact ⟨[], rfl⟩
  | @cons _ gap body _ _ _ _ _ _ _ _ ih =>
      obtain ⟨before, rfl⟩ := ih
      exact ⟨gap ++ (body ++ before), by simp only [List.append_assoc]⟩

/-- A lexeme is within the text, and at least one byte long. -/
theorem Laid.bounds {pos : Nat} {cs tail : List Char} {lexemes : List Lexeme}
    (h : Laid pos cs lexemes tail) {l : Lexeme} (hl : l ∈ lexemes) :
    pos ≤ l.span.start ∧ l.span.start < l.span.stop ∧
      l.span.stop + byteSize tail ≤ pos + byteSize cs := by
  induction h with
  | nil => cases hl
  | @cons pos gap body cs tail token lexemes _ hbody _ h ih =>
      rw [byteSize_append, byteSize_append]
      rcases List.mem_cons.mp hl with rfl | hl
      · obtain ⟨before, rfl⟩ := h.exists_append
        have hpos := Text.byteSize_pos hbody.ne_nil
        rw [byteSize_append, Span.stop]
        dsimp only
        omega
      · have hbounds := ih hl
        omega

theorem Laid.pairwise {pos : Nat} {cs tail : List Char} {lexemes : List Lexeme}
    (h : Laid pos cs lexemes tail) :
    lexemes.Pairwise fun a b => a.span.stop ≤ b.span.start := by
  induction h with
  | nil => exact .nil
  | cons _ _ _ h ih => exact .cons (fun b hb => (h.bounds hb).1) ih

/-- Between any two lexemes the text is cut in two. -/
theorem Laid.exists_of_append {pos : Nat} {cs tail : List Char} {first second : List Lexeme}
    (h : Laid pos cs (first ++ second) tail) :
    ∃ before rest, cs = before ++ rest ∧ Laid pos cs first rest ∧
      Laid (pos + byteSize before) rest second tail := by
  induction first generalizing pos cs with
  | nil => exact ⟨[], cs, rfl, .nil pos cs, h⟩
  | cons l first ih =>
      cases h with
      | @cons _ gap body cs _ token _ hgap hbody hends h =>
          obtain ⟨before, rest, rfl, hfirst, hsecond⟩ := ih h
          refine ⟨gap ++ (body ++ before), rest, ?_, .cons hgap hbody hends hfirst, ?_⟩
          · simp only [List.append_assoc]
          · rwa [byteSize_append, byteSize_append, ← Nat.add_assoc, ← Nat.add_assoc]

/-! ## The lexer lays its lexemes out -/

/-- The offset is at the end of a character of the text, which starts at `pos`, or at its
start. -/
def Within (pos : Nat) (cs : List Char) (offset : Nat) : Prop :=
  ∃ before rest, cs = before ++ rest ∧ offset = pos + byteSize before

theorem Within.append {pos offset : Nat} {cs : List Char} (before : List Char)
    (h : Within (pos + byteSize before) cs offset) : Within pos (before ++ cs) offset := by
  obtain ⟨more, rest, rfl, rfl⟩ := h
  exact ⟨before ++ more, rest, by rw [List.append_assoc], by rw [byteSize_append, Nat.add_assoc]⟩

theorem Within.start (pos : Nat) (cs : List Char) : Within pos cs pos :=
  ⟨[], cs, rfl, rfl⟩

/-- The gap in front of a text is skipped, and it ends at the offset that is found. -/
theorem exists_gap_of_skipTrivia (pos : Nat) (cs : List Char) :
    ∃ gap rest, cs = gap ++ rest ∧ skipTrivia pos cs = (pos + byteSize gap, rest) ∧
      Gap rest gap := by
  induction hn : cs.length using Nat.strongRecOn generalizing pos cs with
  | _ n ih =>
      rw [skipTrivia.eq_def]
      split
      · next cs =>
          by_cases hmem : '\n' ∈ cs
          · obtain ⟨line, after, rfl, hline⟩ := List.eq_append_cons_of_mem hmem
            simp only [List.length_cons, List.length_append] at hn
            obtain ⟨gap, rest, rfl, hskip, hgap⟩ :=
              ih after.length (by omega) (pos + 2 + byteSize line + 1) after rfl
            refine ⟨'/' :: '/' :: (line ++ '\n' :: gap), rest, ?_, ?_, .comment hline hgap⟩
            · simp only [List.cons_append, List.append_assoc]
            · rw [skipComment_line hline, hskip]
              simp only [byteSize, byteSize_append, show Char.utf8Size '/' = 1 from rfl,
                show Char.utf8Size '\n' = 1 from rfl]
              exact congrArg (·, rest) (by omega)
          · refine ⟨'/' :: '/' :: cs, [], (List.append_nil _).symm, ?_, .lastComment hmem rfl⟩
            rw [skipComment_of_notMem hmem]
            simp only [byteSize, show Char.utf8Size '/' = 1 from rfl]
            exact congrArg (·, []) (by omega)
      · next c cs _ =>
          split
          · next hc =>
              rw [List.length_cons] at hn
              obtain ⟨gap, rest, rfl, hskip, hgap⟩ :=
                ih cs.length (by omega) (pos + c.utf8Size) cs rfl
              refine ⟨c :: gap, rest, rfl, ?_, .blank hc hgap⟩
              rw [hskip, byteSize, Nat.add_assoc]
          · exact ⟨[], _, rfl, rfl, .nil⟩
      · exact ⟨[], [], rfl, rfl, .nil⟩

theorem exists_literal_of_scanString {pos stop : Nat} {cs text rest : List Char}
    (h : scanString pos cs = .closed text stop rest) :
    ∃ literal, cs = literal ++ rest ∧ Literal literal text ∧ stop = pos + byteSize literal := by
  fun_induction scanString pos cs generalizing text with
  | case1 => cases h
  | case2 pos cs =>
      cases h
      exact ⟨['"'], rfl, .close, rfl⟩
  | case3 => cases h
  | case4 pos e cs c he ih =>
      obtain ⟨text', hscan⟩ := StringScan.push_eq_closed h
      rw [hscan] at h
      cases h
      obtain ⟨literal, rfl, hliteral, rfl⟩ := ih hscan
      refine ⟨'\\' :: e :: literal, rfl, .escape he hliteral, ?_⟩
      rw [byteSize, byteSize, show Char.utf8Size '\\' = 1 from rfl]
      omega
  | case5 => cases h
  | case6 pos c cs hquote hlast hslash ih =>
      obtain ⟨text', hscan⟩ := StringScan.push_eq_closed h
      rw [hscan] at h
      cases h
      obtain ⟨literal, rfl, hliteral, rfl⟩ := ih hscan
      refine ⟨c :: literal, rfl, .plain hquote ?_ hliteral, by rw [byteSize, Nat.add_assoc]⟩
      -- A backslash would have been read as an escape, or have ended the text.
      rintro rfl
      cases hcs : literal ++ rest with
      | nil => exact hlast rfl hcs
      | cons e cs' => exact hslash e cs' rfl hcs

theorem StringScan.push_eq_badEscape {c e : Char} {s : StringScan} {offset : Nat}
    (h : s.push c = .badEscape e offset) : s = .badEscape e offset := by
  cases s with
  | closed | unclosed => cases h
  | badEscape => exact h

theorem within_of_scanString {pos offset : Nat} {cs : List Char} {e : Char}
    (h : scanString pos cs = .badEscape e offset) : Within pos cs offset := by
  fun_induction scanString pos cs with
  | case1 | case2 | case3 => cases h
  | case4 pos d cs c _ ih =>
      refine Within.append ['\\', d] ?_
      rw [byteSize, byteSize, byteSize, Nat.add_zero, ← Nat.add_assoc]
      exact ih (StringScan.push_eq_badEscape h)
  | case5 pos d cs =>
      cases h
      exact ⟨['\\'], _, rfl, rfl⟩
  | case6 pos c cs _ _ _ ih =>
      exact Within.append [c] (ih (StringScan.push_eq_badEscape h))

theorem wordEnds_dropWhile (cs : List Char) : WordEnds (cs.dropWhile isIdentRest) := by
  intro c hc
  have := List.head?_dropWhile_not isIdentRest cs
  rw [Option.mem_def.mp hc] at this
  simpa using this

theorem byteSize_of_ascii {cs : List Char} (h : ∀ c ∈ cs, c.toNat < 128) :
    byteSize cs = cs.length := by
  induction cs with
  | nil => rfl
  | cons c cs ih =>
      obtain ⟨hc, hcs⟩ := List.forall_mem_cons.mp h
      have hsize : c.utf8Size = 1 := by
        rw [Char.utf8Size_eq_one_iff, UInt32.le_iff_toNat_le]
        exact Nat.le_of_lt_succ hc
      rw [byteSize, hsize, ih hcs, List.length_cons, Nat.add_comm]

theorem byteSize_of_isIdent {name : List Char} (h : isIdent name = true) :
    byteSize name = name.length := by
  refine byteSize_of_ascii fun c hc => ?_
  have hrest := isIdentRest_of_isIdent h c hc
  exact Nat.lt_of_le_of_lt (toNat_bounds_of_isIdentRest hrest).2 (by decide)

theorem utf8Size_of_isPunct {c : Char} (h : isPunct c = true) : c.utf8Size = 1 := by
  simp only [isPunct, List.mem_cons, List.not_mem_nil, or_false, decide_eq_true_eq] at h
  rcases h with rfl | rfl | rfl | rfl | rfl | rfl | rfl | rfl | rfl | rfl | rfl | rfl <;> rfl

/-- A lexeme is where it was looked for, and written there. -/
theorem exists_of_scanLexeme {start stop : Nat} {cs rest : List Char} {l : Lexeme}
    (h : scanLexeme start cs = .lexeme l stop rest) :
    ∃ token body, cs = body ++ rest ∧ Writes body token ∧ token.Ends rest ∧
      l = ⟨token, { start, len := byteSize body }⟩ ∧ stop = start + byteSize body := by
  cases cs with
  | nil => cases h
  | cons c text =>
      simp only [scanLexeme] at h
      split at h
      · next hstart =>
          cases h
          have hname : isIdent (c :: text.takeWhile isIdentRest) = true := by
            rw [isIdent, hstart, List.all_takeWhile]
            rfl
          refine ⟨_, _, ?_, .ident hname, fun _ _ => wordEnds_dropWhile text, ?_, ?_⟩
          · rw [List.cons_append, List.takeWhile_append_dropWhile]
          · rw [byteSize_of_isIdent hname]
          · rw [byteSize_of_isIdent hname]
      split at h
      · next hquote =>
          subst hquote
          split at h
          · next hscan =>
              cases h
              obtain ⟨literal, rfl, hliteral, rfl⟩ := exists_literal_of_scanString hscan
              refine ⟨_, _, rfl, .str hliteral, fun _ heq => Token.noConfusion heq, ?_, ?_⟩
              · rw [byteSize, show Char.utf8Size '"' = 1 from rfl, Nat.add_assoc,
                  Nat.add_sub_cancel_left]
              · rw [byteSize, show Char.utf8Size '"' = 1 from rfl, Nat.add_assoc]
          · cases h
          · cases h
      split at h
      · next hpunct =>
          cases h
          have hsize := utf8Size_of_isPunct hpunct
          refine ⟨_, _, rfl, .punct hpunct, fun _ heq => Token.noConfusion heq, ?_, ?_⟩
          · rw [byteSize, byteSize, hsize]
          · rw [byteSize, byteSize, hsize]
      · cases h

/-- The offset that a diagnostic about the ending points to. -/
def Ending.offset : Ending → Nat
  | .eof offset => offset
  | .fault _ span => span.start

theorem within_of_scanLexeme {start : Nat} {cs : List Char} {e : Ending}
    (h : scanLexeme start cs = .ending e) : Within start cs e.offset := by
  cases cs with
  | nil =>
      cases h
      exact .start start []
  | cons c text =>
      simp only [scanLexeme] at h
      split at h
      · cases h
      split at h
      · next hquote =>
          subst hquote
          split at h
          · cases h
          · next hscan =>
              cases h
              exact Within.append ['"'] (within_of_scanString hscan)
          · cases h
            exact .start start _
      split at h
      · cases h
      · cases h
        exact .start start _

theorem eq_nil_of_scanLexeme {start stop : Nat} {cs : List Char}
    (h : scanLexeme start cs = .ending (.eof stop)) : cs = [] := by
  cases cs with
  | nil => rfl
  | cons c text =>
      simp only [scanLexeme] at h
      split at h
      · cases h
      split at h
      · split at h <;> cases h
      split at h <;> cases h

/-- The lexer lays its lexemes out in the text and stops behind the last of them, at the end
of the text if it finds no fault. -/
theorem laid_of_lex {pos : Nat} {cs : List Char} {lexemes : List Lexeme} {e : Ending}
    (h : TokenStream.lex pos cs = { lexemes, ending := e }) :
    ∃ before tail, cs = before ++ tail ∧ Laid pos cs lexemes tail ∧
      Within (pos + byteSize before) tail e.offset ∧ (∀ stop, e = .eof stop → Gap [] tail) := by
  induction hn : cs.length using Nat.strongRecOn generalizing pos cs lexemes with
  | _ n ih =>
      obtain ⟨gap, rest, rfl, hskip, hgap⟩ := exists_gap_of_skipTrivia pos cs
      cases hfront : front pos (gap ++ rest) with
      | lexeme l stop after =>
          have hlt := length_lt_of_front hfront
          cases hlex : TokenStream.lex stop after with
          | mk lexemes' ending =>
              rw [lex_of_lexeme hfront, hlex] at h
              cases h
              rw [front, hskip] at hfront
              obtain ⟨token, body, rfl, hbody, hends, rfl, rfl⟩ := exists_of_scanLexeme hfront
              obtain ⟨before, tail, rfl, hlaid, hwithin, heof⟩ :=
                ih after.length (by omega) hlex rfl
              refine ⟨gap ++ (body ++ before), tail, ?_, .cons hgap hbody hends hlaid, ?_, heof⟩
              · simp only [List.append_assoc]
              · rwa [byteSize_append, byteSize_append, ← Nat.add_assoc, ← Nat.add_assoc]
      | ending e' =>
          rw [lex_of_ending hfront] at h
          cases h
          rw [front, hskip] at hfront
          refine ⟨[], gap ++ rest, rfl, .nil _ _, (within_of_scanLexeme hfront).append gap, ?_⟩
          rintro stop rfl
          obtain rfl := eq_nil_of_scanLexeme hfront
          rwa [List.append_nil]

end ViewPress.Source
