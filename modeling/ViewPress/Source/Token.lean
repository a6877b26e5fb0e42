import ViewPress.Diagnostic.Location
import ViewPress.Text.Identifier

/-!
# Lexemes of the view language

Views are compiled through a small class language. This file cuts its text into
lexemes: identifiers, string literals and punctuation, with white space and line
comments between them. `TokenStream.ofSource` always answers; what stopped it,
the end of the text or a character no lexeme can start with, is kept as the
ending of the stream. So a reader of the stream meets a lexical fault exactly
when it has used up every lexeme before it.
-/

namespace ViewPress.Source

inductive Token where
  | ident (name : String)
  | str (text : String)
  | punct (c : Char)
  deriving DecidableEq, Repr

/-- A token and where it stands. -/
structure Lexeme where
  token : Token
  span : Span
  deriving DecidableEq, Repr

/-- Why a text cannot be cut into lexemes. -/
inductive LexicalError where
  | unexpected (c : Char)
  | unknownEscape (c : Char)
  | unterminated
  deriving DecidableEq, Repr

def LexicalError.message : LexicalError → String
  | .unexpected c => "unexpected character `" ++ String.singleton c ++ "`"
  | .unknownEscape c => "unknown escape sequence `\\" ++ String.singleton c ++ "`"
  | .unterminated => "unterminated string literal"

/-- What stands after the last lexeme. -/
inductive Ending where
  | eof (offset : Nat)
  | fault (error : LexicalError) (span : Span)
  deriving DecidableEq, Repr

/-- The lexemes of a text, and what ended them. -/
structure TokenStream where
  lexemes : List Lexeme
  ending : Ending
  deriving DecidableEq, Repr

/-- The stream with one more lexeme in front. -/
def TokenStream.cons (l : Lexeme) (s : TokenStream) : TokenStream :=
  { s with lexemes := l :: s.lexemes }

def isPunct (c : Char) : Bool :=
  c ∈ ['{', '}', '(', ')', '[', ']', ':', ';', ',', '.', '#', '!']

mutual

/-- The first offset and text at or after `pos` that is neither blank nor part
of a comment. -/
def skipTrivia (pos : Nat) : List Char → Nat × List Char
  | '/' :: '/' :: cs => skipComment (pos + 2) cs
  | c :: cs => if Text.isBlank c then skipTrivia (pos + c.utf8Size) cs else (pos, c :: cs)
  | [] => (pos, [])

/-- The same from inside a comment, which goes on to the end of its line. -/
def skipComment (pos : Nat) : List Char → Nat × List Char
  | '\n' :: cs => skipTrivia (pos + 1) cs
  | c :: cs => skipComment (pos + c.utf8Size) cs
  | [] => (pos, [])

end

/-- The character that an escape stands for. -/
def unescape : Char → Option Char
  | 'n' => some '\n'
  | 'r' => some '\r'
  | 't' => some '\t'
  | '"' => some '"'
  | '\\' => some '\\'
  | _ => none

/-- How the rest of a string literal reads. -/
inductive StringScan where
  /-- The literal closes: its text, the offset after it and what follows. -/
  | closed (text : List Char) (stop : Nat) (rest : List Char)
  /-- A backslash stands before a character that has no escape. -/
  | badEscape (c : Char) (offset : Nat)
  /-- The text ends inside the literal. -/
  | unclosed

/-- The scan with one more character in front. -/
def StringScan.push (c : Char) : StringScan → StringScan
  | .closed text stop rest => .closed (c :: text) stop rest
  | s => s

/-- Read a string literal from after its opening quote. -/
def scanString (pos : Nat) : List Char → StringScan
  | [] => .unclosed
  | '"' :: cs => .closed [] (pos + 1) cs
  | ['\\'] => .unclosed
  | '\\' :: e :: cs =>
      match unescape e with
      | some c => (scanString (pos + 1 + e.utf8Size) cs).push c
      | none => .badEscape e (pos + 1)
  | c :: cs => (scanString (pos + c.utf8Size) cs).push c

mutual

theorem length_skipTrivia_le (pos : Nat) (cs : List Char) :
    (skipTrivia pos cs).2.length ≤ cs.length := by
  unfold skipTrivia
  split
  · have := length_skipComment_le (pos + 2) (by assumption)
    simp only [List.length_cons]
    omega
  · split
    · have := length_skipTrivia_le (pos + Char.utf8Size (by assumption)) (by assumption)
      simp only [List.length_cons]
      omega
    · exact Nat.le_refl _
  · exact Nat.le_refl _

theorem length_skipComment_le (pos : Nat) (cs : List Char) :
    (skipComment pos cs).2.length ≤ cs.length := by
  unfold skipComment
  split
  · have := length_skipTrivia_le (pos + 1) (by assumption)
    simp only [List.length_cons]
    omega
  · have := length_skipComment_le (pos + Char.utf8Size (by assumption)) (by assumption)
    simp only [List.length_cons]
    omega
  · exact Nat.le_refl _

end

theorem StringScan.push_eq_closed {c : Char} {s : StringScan} {text rest : List Char}
    {stop : Nat} (h : s.push c = .closed text stop rest) :
    ∃ text', s = .closed text' stop rest := by
  cases s with
  | closed t k r =>
      simp only [StringScan.push, StringScan.closed.injEq] at h
      obtain ⟨_, rfl, rfl⟩ := h
      exact ⟨t, rfl⟩
  | badEscape _ _ => simp [StringScan.push] at h
  | unclosed => simp [StringScan.push] at h

/-- What follows a string literal is shorter than what it was read from. -/
theorem length_lt_of_scanString {pos : Nat} {cs text rest : List Char} {stop : Nat}
    (h : scanString pos cs = .closed text stop rest) : rest.length < cs.length := by
  fun_induction scanString pos cs generalizing text with
  | case1 => simp at h
  | case2 pos cs =>
      simp only [StringScan.closed.injEq] at h
      obtain ⟨_, _, rfl⟩ := h
      simp
  | case3 => simp at h
  | case4 pos e cs c _ ih =>
      obtain ⟨_, h'⟩ := StringScan.push_eq_closed h
      have := ih h'
      simp only [List.length_cons]
      omega
  | case5 => simp at h
  | case6 pos c cs _ _ _ ih =>
      obtain ⟨_, h'⟩ := StringScan.push_eq_closed h
      have := ih h'
      simp only [List.length_cons]
      omega

/-- What stands at the front of a text: a lexeme, with the offset and the text after
it, or what ends the stream. -/
inductive Front where
  | lexeme (l : Lexeme) (stop : Nat) (rest : List Char)
  | ending (e : Ending)
  deriving DecidableEq, Repr

/-- The front of a text that starts at offset `start` with neither a blank nor a
comment. -/
def scanLexeme (start : Nat) : List Char → Front
  | [] => .ending (.eof start)
  | c :: rest =>
      if Text.isIdentStart c then
        let name := c :: rest.takeWhile Text.isIdentRest
        .lexeme { token := .ident (String.ofList name), span := { start, len := name.length } }
          (start + name.length) (rest.dropWhile Text.isIdentRest)
      else if c = '"' then
        match scanString (start + 1) rest with
        | .closed text stop after =>
            .lexeme { token := .str (String.ofList text), span := { start, len := stop - start } }
              stop after
        | .badEscape e offset =>
            .ending (.fault (.unknownEscape e) { start := offset, len := e.utf8Size })
        | .unclosed => .ending (.fault .unterminated { start, len := 1 + Text.byteSize rest })
      else if isPunct c then
        .lexeme { token := .punct c, span := { start, len := 1 } } (start + 1) rest
      else .ending (.fault (.unexpected c) { start, len := c.utf8Size })

/-- The front of a text after the blanks and comments it starts with. -/
def front (pos : Nat) (cs : List Char) : Front :=
  match skipTrivia pos cs with
  | (start, text) => scanLexeme start text

theorem length_lt_of_scanLexeme {start stop : Nat} {cs rest : List Char} {l : Lexeme}
    (h : scanLexeme start cs = .lexeme l stop rest) : rest.length < cs.length := by
  cases cs with
  | nil => simp [scanLexeme] at h
  | cons c text =>
      rw [List.length_cons]
      simp only [scanLexeme] at h
      split at h
      · cases h
        have := (List.dropWhile_suffix Text.isIdentRest (l := text)).length_le
        omega
      · split at h
        · split at h
          · next hs =>
              cases h
              have := length_lt_of_scanString hs
              omega
          · cases h
          · cases h
        · split at h
          · cases h
            omega
          · cases h

theorem length_lt_of_front {pos stop : Nat} {cs rest : List Char} {l : Lexeme}
    (h : front pos cs = .lexeme l stop rest) : rest.length < cs.length :=
  Nat.lt_of_lt_of_le (length_lt_of_scanLexeme h) (length_skipTrivia_le pos cs)

/-- The lexemes of the text `cs` that starts at offset `pos`. -/
def TokenStream.lex (pos : Nat) (cs : List Char) : TokenStream :=
  match h : front pos cs with
  | .lexeme l stop rest =>
      have : rest.length < cs.length := length_lt_of_front h
      (lex stop rest).cons l
  | .ending e => { lexemes := [], ending := e }
termination_by cs.length

def TokenStream.ofSource (source : String) : TokenStream :=
  TokenStream.lex 0 source.toList

end ViewPress.Source
