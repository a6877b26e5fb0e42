import ViewPress.Proofs.Cutting

/-!
# Recovery from problems in a template

One reading reports every problem of a template, and a tag with a problem is passed over
as if it were not there. This file takes that literally. Deleting from the text every
tag that a problem points to gives a template with the same body and the same base, in
which only the blocks that were open at the end are left to report.

What could go wrong is that the texts on the two sides of a deleted tag make an opener
where there was none. They cannot: text in front of a tag does not end with a brace, or
that brace and the one of the tag would have been an opener before it. The text of a kept
tag is not touched, and its first closer is found without a look behind it.
-/

namespace ViewPress.Template

open Text (byteSize)

/-! ## Steps that are refused -/

namespace State

/-- A reading goes on from where another one ended. -/
theorem run_append (s : State) (xs ys : List Segment) :
    s.run (xs ++ ys) = (((s.run xs).1.run ys).1, (s.run xs).2 ++ ((s.run xs).1.run ys).2) := by
  induction xs generalizing s with
  | nil => rfl
  | cons x xs ih =>
      rw [List.cons_append, run, run]
      cases s.step x with
      | ok next => exact ih next
      | error problem =>
          simp only [ih s]
          rfl

theorem run_append_congr {xs ys : List Segment} (h : ∀ s : State, s.run xs = s.run ys) (s : State)
    (front : List Segment) : s.run (front ++ xs) = s.run (front ++ ys) := by
  rw [run_append, run_append, h]

/-- A segment brings one problem at most, and if it does, the state stays as it was. -/
theorem run_singleton (s : State) (segment : Segment) :
    (s.run [segment]).2.length ≤ 1 ∧ ((s.run [segment]).2 ≠ [] → (s.run [segment]).1 = s) := by
  rw [run]
  cases s.step segment with
  | ok next => exact ⟨Nat.zero_le 1, fun h => absurd rfl h⟩
  | error problem => exact ⟨Nat.le_refl 1, fun _ => rfl⟩

end State

/-- A problem that is known only at the end of the text. -/
def Problem.isUnclosedBlock : Problem → Bool
  | .unclosedBlock _ => true
  | _ => false

theorem isUnclosedBlock_problem (frame : Frame) : frame.problem.1.isUnclosedBlock = true := by
  cases frame <;> rfl

theorem State.directive_error {s : State} {span : Span} {d : Directive} {problem : Problem} :
    s.directive span d = .error problem → problem.isUnclosedBlock = false := by
  fun_cases State.directive s span d
  all_goals
    intro h
    cases h
    try rfl

/-- A step is refused with a problem that points to the start of its piece. -/
theorem State.step_error {s : State} {pos : Nat} {piece : Piece} {e : Problem × Span}
    (h : s.step (piece.segment pos) = .error e) :
    e.2.start = pos ∧ e.1.isUnclosedBlock = false := by
  cases piece with
  | text content => cases h
  | unclosed kind rest =>
      cases h
      exact ⟨rfl, rfl⟩
  | tag kind inner =>
      cases kind with
      | comment => cases h
      | expression =>
          simp only [Piece.segment, step, expression] at h
          cases hpath : Text.dotted? (Text.trim inner) with
          | some path =>
              rw [hpath] at h
              cases h
          | none =>
              rw [hpath] at h
              cases h
              exact ⟨rfl, rfl⟩
      | directive =>
          simp only [Piece.segment, step] at h
          generalize hd : s.directive _ (.ofInner inner) = next at h
          cases next with
          | ok next => cases h
          | error problem =>
              cases h
              exact ⟨rfl, directive_error hd⟩

/-! ## Deleting tags -/

/-- Some of the tags are deleted, and all that are not closed. -/
inductive Deletes : List Piece → List Piece → Prop where
  | nil : Deletes [] []
  | text {content : List Char} {pieces kept : List Piece} (h : Deletes pieces kept) :
      Deletes (.text content :: pieces) (.text content :: kept)
  | keep {kind : TagKind} {inner : List Char} {pieces kept : List Piece} (h : Deletes pieces kept) :
      Deletes (.tag kind inner :: pieces) (.tag kind inner :: kept)
  | tag {kind : TagKind} {inner : List Char} {pieces kept : List Piece} (h : Deletes pieces kept) :
      Deletes (.tag kind inner :: pieces) kept
  | unclosed {kind : TagKind} {rest : List Char} {pieces kept : List Piece}
      (h : Deletes pieces kept) : Deletes (.unclosed kind rest :: pieces) kept

theorem Deletes.of_textPiece {cs : List Char} {pieces kept : List Piece}
    (h : Deletes (textPiece cs ++ pieces) kept) :
    ∃ kept', kept = textPiece cs ++ kept' ∧ Deletes pieces kept' := by
  cases cs with
  | nil => exact ⟨kept, rfl, h⟩
  | cons c cs =>
      cases h with
      | text h => exact ⟨_, rfl, h⟩

theorem appendNode_appendNode_text (nodes : List Node) (a b : String) :
    appendNode (appendNode nodes (.text a)) (.text b) = appendNode nodes (.text (a ++ b)) := by
  induction nodes with
  | nil => rfl
  | cons n ns ih =>
      cases ns with
      | nil => cases n <;> simp [appendNode, String.append_assoc]
      | cons m ms =>
          have hcons (node : Node) :
              appendNode (n :: m :: ms) node = n :: appendNode (m :: ms) node := by
            simp [appendNode]
          rw [hcons, hcons, ← ih]
          obtain ⟨k, ks, hks⟩ : ∃ k ks, appendNode (m :: ms) (.text a) = k :: ks := by
            cases m <;> cases ms <;> simp [appendNode]
          rw [hks]
          simp [appendNode]

/-- Text after text is read as one text. -/
theorem State.push_text (s : State) (a b : String) :
    (s.push (.text a)).push (.text b) = s.push (.text (a ++ b)) := by
  obtain ⟨nodes, stack, inherits⟩ := s
  cases stack with
  | nil => simp [push, appendNode_appendNode_text]
  | cons frame rest =>
      cases frame with
      | branch cond negate yes no opened =>
          cases no <;> simp [push, Frame.push, appendNode_appendNode_text]
      | forEach binding source body opened =>
          simp [push, Frame.push, appendNode_appendNode_text]

theorem State.run_textPiece (s : State) (as bs : List Char) (rest : List Piece) :
    s.run ((textPiece (as ++ bs) ++ rest).map Piece.bare)
      = s.run ((textPiece as ++ (textPiece bs ++ rest)).map Piece.bare) := by
  cases as with
  | nil => rfl
  | cons a as =>
      cases bs with
      | nil =>
          rw [List.append_nil]
          rfl
      | cons b bs =>
          show (s.push (.text (String.ofList ((a :: as) ++ (b :: bs))))).run _
            = ((s.push (.text (String.ofList (a :: as)))).push
                (.text (String.ofList (b :: bs)))).run _
          rw [push_text, String.ofList_append]

theorem FirstAt.change_closer {kind : TagKind} {inner rest : List Char}
    (h : FirstAt kind.Closes inner (kind.closerText.toList ++ rest)) (rest' : List Char) :
    FirstAt kind.Closes inner (kind.closerText.toList ++ rest') := by
  rw [closerText_eq] at h ⊢
  exact h.change rest'

/-- Text behind other text is one piece with it. -/
theorem Cut.exists_of_nowhere {lead cs : List Char} (h : Nowhere Opens (lead ++ cs)) :
    ∃ left, Cut (lead ++ (textPiece cs ++ []).flatMap Piece.chars) left ∧
      ∀ s : State, s.run (left.map Piece.bare)
        = s.run ((textPiece lead ++ (textPiece cs ++ [])).map Piece.bare) := by
  refine ⟨textPiece (lead ++ cs), ?_, fun s => ?_⟩
  · rw [List.append_nil, chars_textPiece]
    exact .text h
  · rw [← State.run_textPiece, List.append_nil]

/-- The text that is left is cut into the pieces that are left, with neighbouring texts put
together. `lead` is the text in front that deleted tags have left behind. -/
theorem Cut.exists_of_deletes {cs lead : List Char} {pieces kept : List Piece} (h : Cut cs pieces)
    (hkept : Deletes pieces kept) (hlead : Quiet Opens lead) :
    ∃ left, Cut (lead ++ kept.flatMap Piece.chars) left ∧
      ∀ s : State, s.run (left.map Piece.bare)
        = s.run ((textPiece lead ++ kept).map Piece.bare) := by
  induction h generalizing lead kept with
  | @text cs hopen =>
      obtain ⟨kept, rfl, hnil⟩ : ∃ kept', kept = textPiece cs ++ kept' ∧ Deletes [] kept' :=
        Deletes.of_textPiece (by rwa [List.append_nil])
      cases hnil
      exact Cut.exists_of_nowhere (hlead.nowhere_append hopen)
  | @unclosed before rest kind hopen hclose =>
      obtain ⟨kept, rfl, hunclosed⟩ := hkept.of_textPiece
      cases hunclosed with
      | unclosed hnil =>
          cases hnil
          exact Cut.exists_of_nowhere (hlead.append (quiet_of_firstAt hopen)).nowhere
  | @tag before inner rest kind pieces hopen hclose hrest ih =>
      have hbefore := hlead.append (quiet_of_firstAt hopen)
      obtain ⟨kept, rfl, htag⟩ := hkept.of_textPiece
      cases htag with
      | @keep _ _ _ kept h =>
          obtain ⟨left, hcut, hrun⟩ :
              ∃ left, Cut (kept.flatMap Piece.chars) left ∧
                ∀ s : State, s.run (left.map Piece.bare) = s.run (kept.map Piece.bare) :=
            ih h quiet_nil
          -- The opener is still the first one, and the closer does not see what is behind it.
          have hleft := Cut.tag (hbefore.firstAt (starts_opener kind _))
            (hclose.change_closer (kept.flatMap Piece.chars)) hcut
          refine ⟨_, by simpa [chars_textPiece, Piece.chars] using hleft, fun s => ?_⟩
          have hsame := State.run_append_congr hrun s
            ((textPiece lead ++ (textPiece before ++ [Piece.tag kind inner])).map Piece.bare)
          rw [State.run_textPiece]
          simpa using hsame
      | tag h =>
          -- The text in front of the deleted tag comes to stand before what is left of the rest.
          obtain ⟨left, hcut, hrun⟩ := ih h hbefore
          refine ⟨left, by simpa [chars_textPiece] using hcut, fun s => ?_⟩
          rw [hrun, State.run_textPiece]

/-! ## The pieces that problems point to -/

/-- The bytes at which the refused tags start. A problem of an open block refuses no tag. -/
def refusedAt (problems : List (Problem × Span)) : List Nat :=
  (problems.filter fun e => !e.1.isUnclosedBlock).map fun e => e.2.start

/-- The pieces that start at none of the bytes. -/
def remaining (starts : List Nat) (pos : Nat) (pieces : List Piece) : List Piece :=
  ((placed pos pieces).filter fun e => !starts.contains e.1).map Prod.snd

/-- The text without the tags that its problems point to. -/
def mended (source : String) (pieces : List Piece) : String :=
  String.ofList ((remaining (refusedAt (parse source).2) 0 pieces).flatMap Piece.chars)

theorem remaining_cons_of_mem {starts : List Nat} {pos : Nat} (h : pos ∈ starts) (piece : Piece)
    (rest : List Piece) :
    remaining starts pos (piece :: rest)
      = remaining starts (pos + byteSize piece.chars) rest := by
  simp [remaining, placed, h]

theorem remaining_cons_of_notMem {starts : List Nat} {pos : Nat} (h : pos ∉ starts) (piece : Piece)
    (rest : List Piece) :
    remaining starts pos (piece :: rest)
      = piece :: remaining starts (pos + byteSize piece.chars) rest := by
  simp [remaining, placed, h]

/-- A byte before the pieces does not matter. -/
theorem remaining_cons_start {start pos : Nat} (h : start < pos) (starts : List Nat)
    (pieces : List Piece) :
    remaining (start :: starts) pos pieces = remaining starts pos pieces := by
  induction pieces generalizing pos with
  | nil => rfl
  | cons piece rest ih =>
      have hrest := ih (Nat.lt_add_right (byteSize piece.chars) h)
      by_cases hmem : pos ∈ starts
      · have hcons : pos ∈ start :: starts := List.mem_cons_of_mem start hmem
        rw [remaining_cons_of_mem hcons, remaining_cons_of_mem hmem, hrest]
      · have hcons : pos ∉ start :: starts :=
          List.not_mem_cons_of_ne_of_not_mem (by omega) hmem
        rw [remaining_cons_of_notMem hcons, remaining_cons_of_notMem hmem, hrest]

section Refused

variable {s : State} {pos : Nat} {pieces : List Piece}

/-- The problems of a reading point to places from its first one on. -/
theorem State.run_problems {e : Problem × Span} (h : e ∈ (s.run (placedSegments pos pieces)).2) :
    pos ≤ e.2.start ∧ e.1.isUnclosedBlock = false := by
  induction pieces generalizing s pos with
  | nil => cases h
  | cons piece rest ih =>
      rw [placedSegments_cons, run] at h
      cases hstep : s.step (piece.segment pos) with
      | ok next =>
          rw [hstep] at h
          obtain ⟨hle, hproblem⟩ := ih h
          exact ⟨by omega, hproblem⟩
      | error e' =>
          rw [hstep] at h
          rcases List.mem_cons.mp h with rfl | h
          · obtain ⟨hstart, hproblem⟩ := step_error hstep
            exact ⟨by omega, hproblem⟩
          · obtain ⟨hle, hproblem⟩ := ih h
            exact ⟨by omega, hproblem⟩

theorem refusedAt_run :
    refusedAt (s.run (placedSegments pos pieces)).2
      = (s.run (placedSegments pos pieces)).2.map fun e => e.2.start := by
  rw [refusedAt, List.filter_eq_self.mpr]
  intro e he
  rw [(State.run_problems he).2]
  rfl

/-- The pieces that no problem of their reading points to. -/
def accepted (s : State) (pos : Nat) (pieces : List Piece) : List Piece :=
  remaining (refusedAt (s.run (placedSegments pos pieces)).2) pos pieces

variable {piece : Piece} {rest : List Piece}

theorem accepted_cons_of_ok {next : State} (hchars : piece.chars ≠ [])
    (hstep : s.step (piece.segment pos) = .ok next) :
    accepted s pos (piece :: rest)
      = piece :: accepted next (pos + byteSize piece.chars) rest := by
  have hrun : s.run (placedSegments pos (piece :: rest))
      = next.run (placedSegments (pos + byteSize piece.chars) rest) := by
    rw [placedSegments_cons, State.run, hstep]
  -- The problems of the rest point behind this piece.
  have hpos : pos ∉ refusedAt (next.run (placedSegments (pos + byteSize piece.chars) rest)).2 := by
    rw [refusedAt_run, List.mem_map]
    rintro ⟨e, he, hstart⟩
    have hle := (State.run_problems he).1
    have hsize := Text.byteSize_pos hchars
    omega
  rw [accepted, hrun, remaining_cons_of_notMem hpos, accepted]

theorem accepted_cons_of_error {e : Problem × Span} (hchars : piece.chars ≠ [])
    (hstep : s.step (piece.segment pos) = .error e) :
    accepted s pos (piece :: rest) = accepted s (pos + byteSize piece.chars) rest := by
  obtain ⟨hstart, hproblem⟩ := State.step_error hstep
  have hrefused : refusedAt (s.run (placedSegments pos (piece :: rest))).2
      = pos :: refusedAt (s.run (placedSegments (pos + byteSize piece.chars) rest)).2 := by
    rw [placedSegments_cons, State.run, hstep]
    simp [refusedAt, hproblem, hstart]
  have hlt : pos < pos + byteSize piece.chars := Nat.lt_add_of_pos_right (Text.byteSize_pos hchars)
  rw [accepted, hrefused, remaining_cons_of_mem List.mem_cons_self, remaining_cons_start hlt,
    accepted]

/-- All texts are accepted, and no tag that is not closed is. -/
theorem deletes_accepted (s : State) (pos : Nat) (hchars : ∀ piece ∈ pieces, piece.chars ≠ []) :
    Deletes pieces (accepted s pos pieces) := by
  induction pieces generalizing s pos with
  | nil => exact .nil
  | cons piece rest ih =>
      obtain ⟨hpiece, hrest⟩ := List.forall_mem_cons.mp hchars
      cases hstep : s.step (piece.segment pos) with
      | ok next =>
          rw [accepted_cons_of_ok hpiece hstep]
          cases piece with
          | text content => exact .text (ih _ _ hrest)
          | tag kind inner => exact .keep (ih _ _ hrest)
          | unclosed kind rest => cases hstep
      | error e =>
          rw [accepted_cons_of_error hpiece hstep]
          cases piece with
          | text content => cases hstep
          | tag kind inner => exact .tag (ih _ _ hrest)
          | unclosed kind rest => exact .unclosed (ih _ _ hrest)

/-- Reading only the accepted pieces ends in the same state and meets no problem. -/
theorem run_accepted (s : State) (pos : Nat) (hchars : ∀ piece ∈ pieces, piece.chars ≠ []) :
    s.unplaced.run ((accepted s pos pieces).map Piece.bare)
      = ((s.run (placedSegments pos pieces)).1.unplaced, []) := by
  induction pieces generalizing s pos with
  | nil => rfl
  | cons piece rest ih =>
      obtain ⟨hpiece, hrest⟩ := List.forall_mem_cons.mp hchars
      cases hstep : s.step (piece.segment pos) with
      | ok next =>
          have hbare : s.unplaced.step piece.bare = .ok next.unplaced := by
            rw [← unplaced_segment pos, State.step_unplaced, hstep]
            rfl
          rw [accepted_cons_of_ok hpiece hstep, List.map_cons, State.run, hbare,
            placedSegments_cons, State.run, hstep]
          exact ih _ _ hrest
      | error e =>
          rw [accepted_cons_of_error hpiece hstep, ih _ _ hrest, placedSegments_cons, State.run,
            hstep]

end Refused

/-- The tags that problems point to are those that were refused. -/
theorem Cut.remaining_eq {source : String} {pieces : List Piece} (h : Cut source.toList pieces) :
    remaining (refusedAt (parse source).2) 0 pieces = accepted {} 0 pieces := by
  have hstack (frames : List Frame) : refusedAt (frames.map Frame.problem) = [] := by
    simp [refusedAt, isUnclosedBlock_problem]
  have happend (xs ys : List (Problem × Span)) :
      refusedAt (xs ++ ys) = refusedAt xs ++ refusedAt ys := by
    simp [refusedAt]
  rw [parse, segments, h.segmentsFrom_eq]
  simp only [happend, hstack, List.append_nil]
  rfl

/-- What a template reports about open blocks is what the frames left over say. -/
theorem Cut.filter_isUnclosedBlock {source : String} {pieces : List Piece}
    (h : Cut source.toList pieces) :
    (parse source).2.filter (fun e => e.1.isUnclosedBlock)
      = (State.run {} (segments source)).1.stack.map Frame.problem := by
  rw [parse, List.filter_append, List.filter_eq_nil_iff.mpr, List.filter_eq_self.mpr,
    List.nil_append]
  · intro e he
    obtain ⟨frame, -, rfl⟩ := List.mem_map.mp he
    exact isUnclosedBlock_problem frame
  · intro e he
    rw [segments, h.segmentsFrom_eq] at he
    rw [(State.run_problems he).2]
    exact Bool.false_ne_true

end ViewPress.Template
