import ViewPress.Template.Parser

/-!
# How a template is cut into pieces

A template is cut at the leftmost opener and at the first closer of its kind after it,
and so on behind that. `Cut` says this in terms of places in the text and of nothing
else: where the first opener is, where the first closer is, and where there is none.
Every text is cut in exactly one way, the pieces put together are the text, and the
segments of a template are its pieces with the bytes where they stand.

Where a tag stands matters to no decision of the machine that reads it. So what a
template says can be read off its pieces, and the bytes come in only with the places
that problems point to.
-/

namespace ViewPress.Template

open Text (byteSize)

/-! ## Places in a text -/

/-- The text starts with two characters that `p` relates. -/
def Starts (p : Char → Char → Prop) : List Char → Prop
  | a :: b :: _ => p a b
  | _ => False

/-- No place in the text starts with two such characters. -/
def Nowhere (p : Char → Char → Prop) (cs : List Char) : Prop :=
  ∀ place, place <:+ cs → ¬ Starts p place

/-- Of all the places in `before ++ after` that start with two such characters, `after` is
the first. -/
structure FirstAt (p : Char → Char → Prop) (before after : List Char) : Prop where
  starts : Starts p after
  leftmost : ∀ place, place <:+ before ++ after → Starts p place → place <:+ after

/-- No two such characters start in the text, whatever follows it. -/
def Quiet (p : Char → Char → Prop) (cs : List Char) : Prop :=
  ∀ after place, place <:+ cs ++ after → Starts p place → place <:+ after

section Places

variable {p : Char → Char → Prop} {c : Char} {cs before after : List Char}

theorem nowhere_nil : Nowhere p [] := by
  intro place hplace hstarts
  rw [List.suffix_nil.mp hplace] at hstarts
  exact hstarts

theorem nowhere_cons : Nowhere p (c :: cs) ↔ ¬ Starts p (c :: cs) ∧ Nowhere p cs := by
  constructor
  · intro h
    exact ⟨h _ List.suffix_rfl, fun place hplace => h place (hplace.trans (List.suffix_cons c cs))⟩
  · intro ⟨hhead, htail⟩ place hplace
    rcases List.suffix_cons_iff.mp hplace with rfl | hplace
    · exact hhead
    · exact htail place hplace

theorem firstAt_nil (h : Starts p after) : FirstAt p [] after :=
  ⟨h, fun _ hplace _ => hplace⟩

theorem firstAt_cons :
    FirstAt p (c :: before) after ↔
      ¬ Starts p (c :: (before ++ after)) ∧ FirstAt p before after := by
  constructor
  · intro h
    refine ⟨fun hstarts => ?_, h.starts, fun place hplace => ?_⟩
    · have hlength := (h.leftmost _ List.suffix_rfl hstarts).length_le
      simp only [List.cons_append, List.length_cons, List.length_append] at hlength
      omega
    · exact h.leftmost place (hplace.trans (List.suffix_cons c _))
  · intro ⟨hhead, htail⟩
    refine ⟨htail.starts, fun place hplace hstarts => ?_⟩
    rcases List.suffix_cons_iff.mp hplace with rfl | hplace
    · exact absurd hstarts hhead
    · exact htail.leftmost place hplace hstarts

/-- Two such characters are nowhere, or there is a first place where they are. -/
theorem nowhere_or_firstAt (p : Char → Char → Prop) (cs : List Char) :
    Nowhere p cs ∨ ∃ before after, cs = before ++ after ∧ FirstAt p before after := by
  induction cs with
  | nil => exact .inl nowhere_nil
  | cons c cs ih =>
      by_cases hstarts : Starts p (c :: cs)
      · exact .inr ⟨[], c :: cs, rfl, firstAt_nil hstarts⟩
      · rcases ih with hnowhere | ⟨before, after, rfl, hfirst⟩
        · exact .inl (nowhere_cons.mpr ⟨hstarts, hnowhere⟩)
        · exact .inr ⟨c :: before, after, rfl, firstAt_cons.mpr ⟨hstarts, hfirst⟩⟩

theorem quiet_nil : Quiet p [] :=
  fun _ _ hplace _ => hplace

theorem Quiet.append (hbefore : Quiet p before) (hcs : Quiet p cs) : Quiet p (before ++ cs) := by
  intro after place hplace hstarts
  rw [List.append_assoc] at hplace
  exact hcs after place (hbefore (cs ++ after) place hplace hstarts) hstarts

theorem Quiet.firstAt (h : Quiet p before) (hafter : Starts p after) : FirstAt p before after :=
  ⟨hafter, h after⟩

theorem Quiet.nowhere_append (h : Quiet p before) (hcs : Nowhere p cs) :
    Nowhere p (before ++ cs) := by
  intro place hplace hstarts
  exact hcs place (h cs place hplace hstarts) hstarts

theorem Quiet.nowhere (h : Quiet p cs) : Nowhere p cs := by
  have happend := h.nowhere_append nowhere_nil
  rwa [List.append_nil] at happend

theorem quiet_cons (hhead : ∀ after, ¬ Starts p (c :: (cs ++ after))) (htail : Quiet p cs) :
    Quiet p (c :: cs) := by
  intro after place hplace hstarts
  rcases List.suffix_cons_iff.mp hplace with rfl | hplace
  · exact absurd hstarts (hhead after)
  · exact htail after place hplace hstarts

/-- Whether two such characters start at `c` is seen from the character after it. -/
theorem starts_cons_append (c x : Char) (cs after after' : List Char) :
    Starts p (c :: (cs ++ x :: after)) ↔ Starts p (c :: (cs ++ x :: after')) := by
  cases cs <;> rfl

/-- What stands before the first place stays quiet if it stays so before `x`, the first
character there. -/
theorem FirstAt.quiet {x : Char} (hx : ∀ a b, p a b → p a x) (h : FirstAt p before (x :: after)) :
    Quiet p before := by
  induction before with
  | nil => exact quiet_nil
  | cons c before ih =>
      obtain ⟨hhead, hfirst⟩ := firstAt_cons.mp h
      refine quiet_cons (fun rest hstarts => hhead ?_) (ih hfirst)
      cases before with
      | nil =>
          cases rest with
          | nil => exact hstarts.elim
          | cons d rest => exact hx c d hstarts
      | cons d before => exact hstarts

/-- What stands behind the two characters of the first place does not matter to it. -/
theorem FirstAt.change {x y : Char} (h : FirstAt p before (x :: y :: after)) (after' : List Char) :
    FirstAt p before (x :: y :: after') := by
  induction before with
  | nil => exact firstAt_nil h.starts
  | cons c before ih =>
      obtain ⟨hhead, hfirst⟩ := firstAt_cons.mp h
      exact firstAt_cons.mpr ⟨fun hstarts => hhead ((starts_cons_append ..).mp hstarts), ih hfirst⟩

end Places

/-! ## Openers and closers -/

/-- The two characters are an opener. -/
def Opens (a b : Char) : Prop :=
  ∃ kind : TagKind, kind.opener.toList = [a, b]

/-- The two characters close tags of the kind. -/
def TagKind.Closes (kind : TagKind) (a b : Char) : Prop :=
  kind.closerText.toList = [a, b]

theorem opener_eq (kind : TagKind) : ∃ mark, kind.opener.toList = ['{', mark] := by
  cases kind <;> exact ⟨_, rfl⟩

theorem closerText_eq (kind : TagKind) :
    kind.closerText.toList = [kind.closer.1, kind.closer.2] := by
  rw [TagKind.closerText, String.toList_ofList]

theorem starts_opener (kind : TagKind) (cs : List Char) :
    Starts Opens (kind.opener.toList ++ cs) := by
  obtain ⟨mark, hmark⟩ := opener_eq kind
  rw [hmark]
  exact ⟨kind, hmark⟩

theorem exists_of_starts_opens {cs : List Char} (h : Starts Opens cs) :
    ∃ (kind : TagKind) (rest : List Char), cs = kind.opener.toList ++ rest := by
  match cs, h with
  | a :: b :: rest, ⟨kind, hkind⟩ => exact ⟨kind, rest, by rw [hkind]; rfl⟩

theorem exists_of_starts_closes {kind : TagKind} {cs : List Char} (h : Starts kind.Closes cs) :
    ∃ rest, cs = kind.closerText.toList ++ rest := by
  match cs, h with
  | a :: b :: rest, hclose => exact ⟨rest, by rw [hclose]; rfl⟩

/-- Text in front of a tag does not end with a brace, so that no opener starts in it whatever
comes behind. -/
theorem quiet_of_firstAt {kind : TagKind} {before after : List Char}
    (h : FirstAt Opens before (kind.opener.toList ++ after)) : Quiet Opens before := by
  obtain ⟨mark, hmark⟩ := opener_eq kind
  rw [hmark] at h
  refine FirstAt.quiet (fun a b hopens => ⟨.expression, ?_⟩) h
  obtain ⟨k, hk⟩ := hopens
  obtain ⟨m, hm⟩ := opener_eq k
  rw [hm] at hk
  cases hk
  rfl

theorem splitAtOpener_cons {c : Char} {cs : List Char} (h : ¬ Starts Opens (c :: cs)) :
    splitAtOpener (c :: cs) = (c :: (splitAtOpener cs).1, (splitAtOpener cs).2) := by
  rw [splitAtOpener]
  · rintro cs' rfl rfl
    exact h (starts_opener .expression cs')
  · rintro cs' rfl rfl
    exact h (starts_opener .directive cs')
  · rintro cs' rfl rfl
    exact h (starts_opener .comment cs')

theorem splitAtOpener_of_nowhere {cs : List Char} (h : Nowhere Opens cs) :
    splitAtOpener cs = (cs, none) := by
  induction cs with
  | nil => rfl
  | cons c cs ih =>
      obtain ⟨hhead, htail⟩ := nowhere_cons.mp h
      rw [splitAtOpener_cons hhead, ih htail]

theorem splitAtOpener_of_firstAt {kind : TagKind} {before rest : List Char}
    (h : FirstAt Opens before (kind.opener.toList ++ rest)) :
    splitAtOpener (before ++ (kind.opener.toList ++ rest)) = (before, some (kind, rest)) := by
  induction before with
  | nil => cases kind <;> rfl
  | cons c before ih =>
      obtain ⟨hhead, hfirst⟩ := firstAt_cons.mp h
      rw [List.cons_append, splitAtOpener_cons hhead, ih hfirst]

theorem splitAtCloser_cons {kind : TagKind} {c : Char} {cs : List Char}
    (h : ¬ Starts kind.Closes (c :: cs)) :
    splitAtCloser kind.closer.1 kind.closer.2 (c :: cs)
      = (splitAtCloser kind.closer.1 kind.closer.2 cs).map
          fun (inner, rest) => (c :: inner, rest) := by
  cases cs with
  | nil => rfl
  | cons d cs =>
      rw [splitAtCloser, if_neg]
      intro ⟨hc, hd⟩
      refine h ?_
      show kind.closerText.toList = [c, d]
      rw [closerText_eq, hc, hd]

theorem splitAtCloser_of_nowhere {kind : TagKind} {cs : List Char} (h : Nowhere kind.Closes cs) :
    splitAtCloser kind.closer.1 kind.closer.2 cs = none := by
  induction cs with
  | nil => rfl
  | cons c cs ih =>
      obtain ⟨hhead, htail⟩ := nowhere_cons.mp h
      rw [splitAtCloser_cons hhead, ih htail, Option.map_none]

theorem splitAtCloser_of_firstAt {kind : TagKind} {inner rest : List Char}
    (h : FirstAt kind.Closes inner (kind.closerText.toList ++ rest)) :
    splitAtCloser kind.closer.1 kind.closer.2 (inner ++ (kind.closerText.toList ++ rest))
      = some (inner, rest) := by
  induction inner with
  | nil =>
      rw [closerText_eq, List.nil_append, List.cons_append, List.cons_append, splitAtCloser,
        if_pos ⟨rfl, rfl⟩]
      rfl
  | cons c inner ih =>
      obtain ⟨hhead, hfirst⟩ := firstAt_cons.mp h
      rw [List.cons_append, splitAtCloser_cons hhead, ih hfirst, Option.map_some]

/-! ## Pieces -/

/-- A piece of a template, without the bytes where it stands. -/
inductive Piece where
  | text (content : List Char)
  | tag (kind : TagKind) (inner : List Char)
  /-- An opener that nothing closes, with everything behind it. -/
  | unclosed (kind : TagKind) (rest : List Char)
  deriving DecidableEq, Repr

/-- The text of a piece. -/
def Piece.chars : Piece → List Char
  | .text content => content
  | .tag kind inner => kind.opener.toList ++ (inner ++ kind.closerText.toList)
  | .unclosed kind rest => kind.opener.toList ++ rest

/-- The piece of a text, if there is any text. -/
def textPiece (cs : List Char) : List Piece :=
  if cs.isEmpty then [] else [.text cs]

/-- How a text is cut: text without an opener is one piece; otherwise a tag goes from the
first opener to the first closer of its kind behind it, or to the end if there is none. -/
inductive Cut : List Char → List Piece → Prop where
  | text {cs : List Char} (hopen : Nowhere Opens cs) : Cut cs (textPiece cs)
  | unclosed {before rest : List Char} {kind : TagKind}
      (hopen : FirstAt Opens before (kind.opener.toList ++ rest))
      (hclose : Nowhere kind.Closes rest) :
      Cut (before ++ (kind.opener.toList ++ rest)) (textPiece before ++ [.unclosed kind rest])
  | tag {before inner rest : List Char} {kind : TagKind} {pieces : List Piece}
      (hopen : FirstAt Opens before
        (kind.opener.toList ++ (inner ++ (kind.closerText.toList ++ rest))))
      (hclose : FirstAt kind.Closes inner (kind.closerText.toList ++ rest))
      (hrest : Cut rest pieces) :
      Cut (before ++ (kind.opener.toList ++ (inner ++ (kind.closerText.toList ++ rest))))
        (textPiece before ++ .tag kind inner :: pieces)

theorem exists_cut (cs : List Char) : ∃ pieces, Cut cs pieces := by
  induction hn : cs.length using Nat.strongRecOn generalizing cs with
  | _ n ih =>
      rcases nowhere_or_firstAt Opens cs with hopen | ⟨before, after, rfl, hopen⟩
      · exact ⟨_, .text hopen⟩
      · obtain ⟨kind, rest, rfl⟩ := exists_of_starts_opens hopen.starts
        rcases nowhere_or_firstAt kind.Closes rest with hclose | ⟨inner, after, rfl, hclose⟩
        · exact ⟨_, .unclosed hopen hclose⟩
        · obtain ⟨rest, rfl⟩ := exists_of_starts_closes hclose.starts
          have hshorter : rest.length < n := by
            rw [← hn, closerText_eq]
            simp only [List.length_append, List.length_cons]
            omega
          obtain ⟨pieces, hpieces⟩ := ih rest.length hshorter rest rfl
          exact ⟨_, .tag hopen hclose hpieces⟩

/-- A text is cut in one way only. -/
theorem Cut.unique {cs : List Char} {pieces pieces' : List Piece} (h : Cut cs pieces)
    (h' : Cut cs pieces') : pieces' = pieces := by
  induction h generalizing pieces' with
  | text hopen =>
      have hsplit := splitAtOpener_of_nowhere hopen
      cases h' with
      | text _ => rfl
      | unclosed hopen' _ =>
          rw [splitAtOpener_of_firstAt hopen'] at hsplit
          simp at hsplit
      | tag hopen' _ _ =>
          rw [splitAtOpener_of_firstAt hopen'] at hsplit
          simp at hsplit
  | @unclosed before rest kind hopen hclose =>
      have hsplit := splitAtOpener_of_firstAt hopen
      have hnone := splitAtCloser_of_nowhere hclose
      generalize before ++ (kind.opener.toList ++ rest) = cs at h' hsplit
      cases h' with
      | text hopen' =>
          rw [splitAtOpener_of_nowhere hopen'] at hsplit
          cases hsplit
      | unclosed hopen' _ =>
          rw [splitAtOpener_of_firstAt hopen'] at hsplit
          cases hsplit
          rfl
      | tag hopen' hclose' _ =>
          rw [splitAtOpener_of_firstAt hopen'] at hsplit
          cases hsplit
          rw [splitAtCloser_of_firstAt hclose'] at hnone
          cases hnone
  | @tag before inner rest kind pieces hopen hclose _ ih =>
      have hsplit := splitAtOpener_of_firstAt hopen
      have hsome := splitAtCloser_of_firstAt hclose
      generalize before ++ (kind.opener.toList ++ (inner ++ (kind.closerText.toList ++ rest))) = cs
        at h' hsplit
      cases h' with
      | text hopen' =>
          rw [splitAtOpener_of_nowhere hopen'] at hsplit
          cases hsplit
      | unclosed hopen' hclose' =>
          rw [splitAtOpener_of_firstAt hopen'] at hsplit
          cases hsplit
          rw [splitAtCloser_of_nowhere hclose'] at hsome
          cases hsome
      | tag hopen' hclose' hrest' =>
          rw [splitAtOpener_of_firstAt hopen', Prod.mk.injEq, Option.some.injEq,
            Prod.mk.injEq] at hsplit
          obtain ⟨rfl, rfl, hinner⟩ := hsplit
          rw [← hinner, splitAtCloser_of_firstAt hclose'] at hsome
          cases hsome
          rw [ih hrest']

theorem chars_textPiece (cs : List Char) : (textPiece cs).flatMap Piece.chars = cs := by
  cases cs with
  | nil => rfl
  | cons c cs => exact List.append_nil _

/-- Nothing is lost between the pieces. -/
theorem Cut.chars {cs : List Char} {pieces : List Piece} (h : Cut cs pieces) :
    pieces.flatMap Piece.chars = cs := by
  induction h with
  | text _ => exact chars_textPiece _
  | unclosed _ _ => simp [chars_textPiece, Piece.chars]
  | tag _ _ _ ih => simp [chars_textPiece, Piece.chars, ih]

theorem Cut.chars_ne_nil {cs : List Char} {pieces : List Piece} (h : Cut cs pieces) :
    ∀ piece ∈ pieces, piece.chars ≠ [] := by
  have htext (cs : List Char) : ∀ piece ∈ textPiece cs, piece.chars ≠ [] := by
    cases cs <;> simp [textPiece, Piece.chars]
  have hopener (kind : TagKind) : kind.opener.toList ≠ [] := by
    cases kind <;> simp [TagKind.opener]
  induction h with
  | text _ => exact htext _
  | unclosed _ _ => simpa [Piece.chars, or_imp, forall_and, hopener] using htext _
  | tag _ _ _ ih =>
      intro piece hpiece
      rcases List.mem_append.mp hpiece with hpiece | hpiece
      · exact htext _ piece hpiece
      · rcases List.mem_cons.mp hpiece with rfl | hpiece
        · simp [Piece.chars, hopener]
        · exact ih piece hpiece

/-! ## Pieces where they stand -/

/-- The pieces with the byte at which each starts, the first of them at `pos`. -/
def placed (pos : Nat) : List Piece → List (Nat × Piece)
  | [] => []
  | piece :: rest => (pos, piece) :: placed (pos + byteSize piece.chars) rest

/-- The segment of a piece that starts at byte `pos`. -/
def Piece.segment (pos : Nat) : Piece → Segment
  | .text content => .text content
  | .tag kind inner => .tag kind inner { start := pos, len := 2 + byteSize inner + 2 }
  | .unclosed kind rest =>
      .unclosed kind { start := pos, len := 2 + byteSize (Text.firstLine rest) }

def placedSegments (pos : Nat) (pieces : List Piece) : List Segment :=
  (placed pos pieces).map fun (start, piece) => piece.segment start

theorem placedSegments_cons (pos : Nat) (piece : Piece) (rest : List Piece) :
    placedSegments pos (piece :: rest)
      = piece.segment pos :: placedSegments (pos + byteSize piece.chars) rest := rfl

theorem placedSegments_textPiece (pos : Nat) (cs : List Char) (rest : List Piece) :
    placedSegments pos (textPiece cs ++ rest)
      = textSegment cs ++ placedSegments (pos + byteSize cs) rest := by
  cases cs with
  | nil => rfl
  | cons c cs => rfl

theorem byteSize_chars_tag (kind : TagKind) (inner : List Char) :
    byteSize (Piece.tag kind inner).chars = 2 + byteSize inner + 2 := by
  have hopener : byteSize kind.opener.toList = 2 := by cases kind <;> rfl
  have hcloser : byteSize kind.closerText.toList = 2 := by cases kind <;> rfl
  rw [Piece.chars, Text.byteSize_append, Text.byteSize_append, hopener, hcloser]
  omega

/-- The segments of a text are its pieces where they stand. -/
theorem Cut.segmentsFrom_eq {cs : List Char} {pieces : List Piece} (h : Cut cs pieces) (pos : Nat) :
    segmentsFrom pos cs = placedSegments pos pieces := by
  induction h generalizing pos with
  | @text cs hopen =>
      have htext := placedSegments_textPiece pos cs []
      rw [List.append_nil] at htext
      rw [segmentsFrom, htext]
      split
      · next before hsplit =>
          rw [splitAtOpener_of_nowhere hopen] at hsplit
          cases hsplit
          exact (List.append_nil _).symm
      · next hsplit =>
          rw [splitAtOpener_of_nowhere hopen] at hsplit
          cases hsplit
  | unclosed hopen hclose =>
      rw [segmentsFrom, placedSegments_textPiece]
      split
      · next hsplit =>
          rw [splitAtOpener_of_firstAt hopen] at hsplit
          cases hsplit
      · next hsplit =>
          rw [splitAtOpener_of_firstAt hopen] at hsplit
          cases hsplit
          split
          · rfl
          · next hsplit =>
              rw [splitAtCloser_of_nowhere hclose] at hsplit
              cases hsplit
  | tag hopen hclose _ ih =>
      rw [segmentsFrom, placedSegments_textPiece, placedSegments_cons, byteSize_chars_tag]
      split
      · next hsplit =>
          rw [splitAtOpener_of_firstAt hopen] at hsplit
          cases hsplit
      · next hsplit =>
          rw [splitAtOpener_of_firstAt hopen] at hsplit
          cases hsplit
          split
          · next hsplit =>
              rw [splitAtCloser_of_firstAt hclose] at hsplit
              cases hsplit
          · next hsplit =>
              rw [splitAtCloser_of_firstAt hclose] at hsplit
              cases hsplit
              simp only [ih]
              rfl

/-! ## Reading without places -/

/-- The segment with no bytes where it stands. -/
def Segment.unplaced : Segment → Segment
  | .text content => .text content
  | .tag kind inner _ => .tag kind inner {}
  | .unclosed kind _ => .unclosed kind {}

def Frame.unplaced : Frame → Frame
  | .branch cond negate yes no _ => .branch cond negate yes no {}
  | .forEach binding source body _ => .forEach binding source body {}

theorem problem_unplaced (frame : Frame) : frame.unplaced.problem.1 = frame.problem.1 := by
  cases frame <;> rfl

/-- The state with no bytes where its blocks were opened. -/
def State.unplaced (s : State) : State :=
  { s with stack := s.stack.map Frame.unplaced }

/-- The problem with no bytes that it is about. -/
def unplacedProblem (e : Problem × Span) : Problem × Span :=
  (e.1, {})

/-- A piece as a segment that stands nowhere. -/
def Piece.bare (piece : Piece) : Segment :=
  (piece.segment 0).unplaced

theorem unplaced_segment (pos : Nat) (piece : Piece) :
    (piece.segment pos).unplaced = piece.bare := by
  cases piece <;> rfl

theorem map_unplaced_placedSegments (pos : Nat) (pieces : List Piece) :
    (placedSegments pos pieces).map Segment.unplaced = pieces.map Piece.bare := by
  induction pieces generalizing pos with
  | nil => rfl
  | cons piece rest ih =>
      rw [placedSegments_cons, List.map_cons, List.map_cons, unplaced_segment, ih]

namespace State

theorem unplaced_push (s : State) (node : Node) :
    (s.push node).unplaced = s.unplaced.push node := by
  obtain ⟨nodes, stack, inherits⟩ := s
  cases stack with
  | nil => rfl
  | cons frame rest =>
      cases frame with
      | branch cond negate yes no opened => cases no <;> rfl
      | forEach binding source body opened => rfl

theorem directive_unplaced (s : State) (span : Span) (d : Directive) :
    s.unplaced.directive {} d = (s.directive span d).map State.unplaced := by
  obtain ⟨nodes, stack, inherits⟩ := s
  cases d with
  | openIf negate path =>
      simp only [directive]
      cases Text.dotted? path.toList <;> rfl
  | elseMark =>
      cases stack with
      | nil => rfl
      | cons frame rest =>
          cases frame with
          | branch cond negate yes no opened => cases no <;> rfl
          | forEach binding source body opened => rfl
  | closeIf =>
      cases stack with
      | nil => rfl
      | cons frame rest =>
          cases frame with
          | branch cond negate yes no opened =>
              exact congrArg Except.ok (unplaced_push ⟨nodes, rest, inherits⟩ _).symm
          | forEach binding source body opened => rfl
  | openFor binding path =>
      simp only [directive]
      cases Text.dotted? path.toList with
      | none => rfl
      | some source => cases Text.isIdent binding.toList <;> rfl
  | closeFor =>
      cases stack with
      | nil => rfl
      | cons frame rest =>
          cases frame with
          | branch cond negate yes no opened => rfl
          | forEach binding source body opened =>
              exact congrArg Except.ok (unplaced_push ⟨nodes, rest, inherits⟩ _).symm
  | inherits name =>
      cases stack with
      | cons frame rest => rfl
      | nil =>
          simp only [directive]
          cases inherits with
          | some base => rfl
          | none => cases Text.dotted? name.toList <;> rfl
  | malformed keyword => rfl
  | unknown name => rfl

/-- A step does not look at where its segment stands or where blocks were opened. -/
theorem step_unplaced (s : State) (segment : Segment) :
    s.unplaced.step segment.unplaced
      = ((s.step segment).map State.unplaced).mapError unplacedProblem := by
  cases segment with
  | text content => exact congrArg Except.ok (unplaced_push _ _).symm
  | tag kind inner span =>
      cases kind with
      | expression =>
          simp only [step, Segment.unplaced, expression]
          cases Text.dotted? (Text.trim inner) with
          | none => rfl
          | some path => exact congrArg Except.ok (unplaced_push _ _).symm
      | directive =>
          rw [step, Segment.unplaced, step, directive_unplaced s span]
          cases s.directive span (.ofInner inner) <;> rfl
      | comment => rfl
  | unclosed kind span => rfl

/-- So what is read and which problems there are can be told without the places. -/
theorem run_unplaced (s : State) (segments : List Segment) :
    s.unplaced.run (segments.map Segment.unplaced)
      = ((s.run segments).1.unplaced, (s.run segments).2.map unplacedProblem) := by
  induction segments generalizing s with
  | nil => rfl
  | cons segment rest ih =>
      rw [List.map_cons, run, step_unplaced, run]
      cases s.step segment with
      | ok next => exact ih next
      | error problem =>
          show ((s.unplaced.run (rest.map Segment.unplaced)).1,
            unplacedProblem problem :: (s.unplaced.run (rest.map Segment.unplaced)).2) = _
          rw [ih s]
          rfl

end State

/-- The reading of a template is that of its pieces, but for the places. -/
theorem Cut.run_unplaced {source : String} {pieces : List Piece} (h : Cut source.toList pieces) :
    State.run {} (pieces.map Piece.bare)
      = ((State.run {} (segments source)).1.unplaced,
          (State.run {} (segments source)).2.map unplacedProblem) := by
  have hrun := State.run_unplaced {} (segments source)
  rw [segments, h.segmentsFrom_eq, map_unplaced_placedSegments] at hrun
  rw [segments, h.segmentsFrom_eq]
  exact hrun

section Parse

variable {source : String} {pieces : List Piece} (h : Cut source.toList pieces)
include h

/-- The template that a text spells is read off its pieces. -/
theorem Cut.parse_template :
    (parse source).1 =
      { nodes := (State.run {} (pieces.map Piece.bare)).1.nodes
        inherits := (State.run {} (pieces.map Piece.bare)).1.inherits } := by
  rw [h.run_unplaced]
  rfl

/-- So are its problems, but for the places. -/
theorem Cut.parse_problems :
    (parse source).2.map Prod.fst =
      (State.run {} (pieces.map Piece.bare)).2.map Prod.fst
        ++ (State.run {} (pieces.map Piece.bare)).1.stack.map (·.problem.1) := by
  rw [h.run_unplaced]
  simp only [parse, State.unplaced, List.map_append, List.map_map, Function.comp_def,
    unplacedProblem, problem_unplaced]

end Parse

end ViewPress.Template
