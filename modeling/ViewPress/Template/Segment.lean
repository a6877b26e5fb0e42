import ViewPress.Diagnostic.Location

/-!
# Segments of a template

A template is text with tags in it. A tag starts at the leftmost `{{`, `{%` or
`{#` and ends at the first closer of its kind after that; what lies between is
not searched for openers. An opener without its closer ends the template.
-/

namespace ViewPress.Template

/-- The three kinds of tag. -/
inductive TagKind where
  | expression
  | directive
  | comment
  deriving DecidableEq, Repr

def TagKind.opener : TagKind → String
  | .expression => "\x7b\x7b"
  | .directive => "\x7b%"
  | .comment => "\x7b#"

/-- The two characters that close a tag. -/
def TagKind.closer : TagKind → Char × Char
  | .expression => ('}', '}')
  | .directive => ('%', '}')
  | .comment => ('#', '}')

def TagKind.closerText (k : TagKind) : String :=
  String.ofList [k.closer.1, k.closer.2]

inductive Segment where
  /-- Text outside tags, never empty. -/
  | text (content : List Char)
  /-- A tag, what stands inside it and the bytes it covers with its delimiters. -/
  | tag (kind : TagKind) (inner : List Char) (span : Span)
  /-- An opener that nothing closes, with the bytes up to the end of its line. -/
  | unclosed (kind : TagKind) (span : Span)
  deriving DecidableEq, Repr

/-- The text before the leftmost opener, the opener, and what follows it. -/
def splitAtOpener : List Char → List Char × Option (TagKind × List Char)
  | '{' :: '{' :: cs => ([], some (.expression, cs))
  | '{' :: '%' :: cs => ([], some (.directive, cs))
  | '{' :: '#' :: cs => ([], some (.comment, cs))
  | c :: cs =>
      let (before, found) := splitAtOpener cs
      (c :: before, found)
  | [] => ([], none)

/-- The text before the first `a` followed by `b`, and what follows the two. -/
def splitAtCloser (a b : Char) : List Char → Option (List Char × List Char)
  | c :: d :: cs =>
      if c = a ∧ d = b then some ([], cs)
      else (splitAtCloser a b (d :: cs)).map fun (inner, rest) => (c :: inner, rest)
  | _ => none

theorem length_lt_of_splitAtOpener {cs before rest : List Char} {kind : TagKind}
    (h : splitAtOpener cs = (before, some (kind, rest))) : rest.length < cs.length := by
  fun_induction splitAtOpener cs generalizing before with
  | case1 cs | case2 cs | case3 cs =>
      simp only [Prod.mk.injEq, Option.some.injEq] at h
      obtain ⟨_, _, rfl⟩ := h
      simp only [List.length_cons]
      omega
  | case4 c cs _ _ _ b f hb ih =>
      simp only [Prod.mk.injEq] at h
      obtain ⟨_, rfl⟩ := h
      have := ih hb
      simp only [List.length_cons]
      omega
  | case5 => simp at h

theorem length_le_of_splitAtCloser {a b : Char} {cs inner rest : List Char}
    (h : splitAtCloser a b cs = some (inner, rest)) : rest.length ≤ cs.length := by
  fun_induction splitAtCloser a b cs generalizing inner with
  | case1 c d cs _ =>
      simp only [Option.some.injEq, Prod.mk.injEq] at h
      obtain ⟨_, rfl⟩ := h
      simp only [List.length_cons]
      omega
  | case2 c d cs _ ih =>
      obtain ⟨⟨i, r⟩, hi, he⟩ := Option.map_eq_some_iff.mp h
      simp only [Prod.mk.injEq] at he
      obtain ⟨_, rfl⟩ := he
      have := ih hi
      simp only [List.length_cons] at this ⊢
      omega
  | case3 => simp at h

/-- The segment of a text, if there is any text. -/
def textSegment (cs : List Char) : List Segment :=
  if cs.isEmpty then [] else [.text cs]

/-- The segments of the text `cs` that starts at offset `pos`. -/
def segmentsFrom (pos : Nat) (cs : List Char) : List Segment :=
  match h : splitAtOpener cs with
  | (before, none) => textSegment before
  | (before, some (kind, rest)) =>
      let start := pos + Text.byteSize before
      match hc : splitAtCloser kind.closer.1 kind.closer.2 rest with
      | none =>
          textSegment before
            ++ [.unclosed kind { start, len := 2 + Text.byteSize (Text.firstLine rest) }]
      | some (inner, after) =>
          have : after.length < cs.length :=
            Nat.lt_of_le_of_lt (length_le_of_splitAtCloser hc) (length_lt_of_splitAtOpener h)
          let len := 2 + Text.byteSize inner + 2
          textSegment before
            ++ .tag kind inner { start, len } :: segmentsFrom (start + len) after
termination_by cs.length

/-- The segments of a template. -/
def segments (source : String) : List Segment :=
  segmentsFrom 0 source.toList

end ViewPress.Template
