import ViewPress.Diagnostic.Location
import ViewPress.Proofs.Names
import ViewPress.Proofs.ViewPaths

/-!
# Lines, columns and offsets

A location gives a line and a column for a byte offset. Read the other way round, a
line and a column say how much of the text stands in front of a place: so many whole
lines with their line breaks, and so many characters of the line after them. `Denotes`
is that reading, and it knows nothing of how a location is computed. Since it fixes
the offset, locations of different offsets are different.

The text is cut at the offset into `before` and `after`. What has to be shown is that
the line around the cut consists of the last line of `before` and the first line of
`after`, with as many lines above it as `before` has line breaks; `exists_lines_append`
says so, by induction on the lines of `before`.
-/

namespace ViewPress

namespace Text

/-- The lines of a text, without the line breaks that end them. -/
def lines (cs : List Char) : List (List Char) :=
  splitOn (· == '\n') cs

/-! ## Cutting at an offset -/

theorem splitAtByte_append (before after : List Char) :
    splitAtByte (byteSize before) (before ++ after) = (before, after) := by
  induction before with
  | nil =>
      cases after with
      | nil => rfl
      | cons c after =>
          have hpos := c.utf8Size_pos
          rw [List.nil_append, splitAtByte, byteSize, if_neg (by omega)]
  | cons c before ih =>
      rw [List.cons_append, splitAtByte, byteSize, if_pos (Nat.le_add_right _ _),
        Nat.add_sub_cancel_left, ih]

theorem splitAtByte_fst_prefix (n : Nat) (cs : List Char) : (splitAtByte n cs).1 <+: cs := by
  induction cs generalizing n with
  | nil => exact List.prefix_refl []
  | cons c cs ih =>
      rw [splitAtByte]
      split
      · exact List.cons_prefix_cons.mpr ⟨rfl, ih _⟩
      · exact List.nil_prefix

theorem byteSize_eq_utf8ByteSize (s : String) : byteSize s.toList = s.utf8ByteSize :=
  (length_utf8 s).symm

/-- An offset on a character boundary cuts the text in two. -/
theorem exists_append_of_isValid {source : String} {offset : Nat}
    (h : (⟨offset⟩ : String.Pos.Raw).IsValid source) :
    ∃ before after, source.toList = before ++ after ∧ byteSize before = offset := by
  obtain ⟨before, after, rfl, hoffset⟩ := String.Pos.Raw.isValid_iff_exists_append.mp h
  refine ⟨before.toList, after.toList, String.toList_append, ?_⟩
  rw [byteSize_eq_utf8ByteSize]
  exact (congrArg String.Pos.Raw.byteIdx hoffset).symm

theorem isValid_of_append {source : String} {before after : List Char}
    (h : source.toList = before ++ after) :
    (⟨byteSize before⟩ : String.Pos.Raw).IsValid source := by
  refine String.Pos.Raw.isValid_iff_exists_append.mpr
    ⟨String.ofList before, String.ofList after, ?_, ?_⟩
  · rw [← String.ofList_append, ← h, String.ofList_toList]
  · rw [String.rawEndPos, ← byteSize_eq_utf8ByteSize, String.toList_ofList]

/-! ## The line around a cut -/

theorem firstLine_append {w : List Char} (hw : '\n' ∉ w) (cs : List Char) :
    firstLine (w ++ cs) = w ++ firstLine cs := by
  refine List.takeWhile_append_of_pos fun c hc => ?_
  rw [decide_eq_true_eq]
  rintro rfl
  exact hw hc

theorem firstLine_of_notMem {cs : List Char} (h : '\n' ∉ cs) : firstLine cs = cs := by
  have hline := firstLine_append h []
  rwa [List.append_nil, show firstLine [] = [] from rfl, List.append_nil] at hline

theorem lastLine_of_notMem {cs : List Char} (h : '\n' ∉ cs) : lastLine cs = cs := by
  have hline : firstLine cs.reverse = cs.reverse := firstLine_of_notMem (by simpa using h)
  rw [lastLine, ← firstLine, hline, List.reverse_reverse]

theorem lastLine_append (w cs : List Char) : lastLine (w ++ '\n' :: cs) = lastLine cs := by
  rw [lastLine, lastLine, List.reverse_append, List.reverse_cons, List.append_assoc,
    List.takeWhile_append]
  split
  · next hall =>
      rw [List.singleton_append, List.takeWhile_cons_of_neg (by simp), List.append_nil,
        (List.takeWhile_prefix _).eq_of_length hall]
  · rfl

theorem lines_append {w : List Char} (hw : '\n' ∉ w) (cs : List Char) :
    lines (w ++ '\n' :: cs) = w :: lines cs := by
  refine splitOn_append _ (fun c hc => ?_) rfl cs
  rw [beq_eq_false_iff_ne]
  rintro rfl
  exact hw hc

theorem exists_lines_eq_cons (cs : List Char) : ∃ below, lines cs = firstLine cs :: below := by
  induction cs with
  | nil => exact ⟨[], rfl⟩
  | cons c cs ih =>
      obtain ⟨below, hlines⟩ := ih
      by_cases hc : c = '\n'
      · subst hc
        exact ⟨lines cs, rfl⟩
      · refine ⟨below, ?_⟩
        rw [lines, splitOn, if_neg (by simpa using hc), ← lines, hlines]
        have hline : firstLine ([c] ++ cs) = [c] ++ firstLine cs :=
          firstLine_append (by simpa using Ne.symm hc) cs
        exact congrArg (· :: below) hline.symm

/-- Above the line in which a text is cut stand as many lines as there are line breaks
before the cut, and they are all of the text up to the start of that line. -/
theorem exists_lines_append (before after : List Char) :
    ∃ above below, lines (before ++ after)
        = above ++ (lastLine before ++ firstLine after) :: below ∧
      above.length = before.count '\n' ∧
      above.flatMap (· ++ ['\n']) ++ lastLine before = before := by
  induction hn : before.length using Nat.strongRecOn generalizing before with
  | _ n ih =>
      by_cases h : '\n' ∈ before
      · obtain ⟨w, rest, rfl, hw⟩ := List.eq_append_cons_of_mem h
        rw [List.length_append, List.length_cons] at hn
        obtain ⟨above, below, hlines, hcount, hflat⟩ := ih rest.length (by omega) rest rfl
        refine ⟨w :: above, below, ?_, ?_, ?_⟩
        · rw [List.append_assoc, List.cons_append, lines_append hw, hlines, lastLine_append,
            List.cons_append]
        · rw [List.length_cons, hcount, List.count_append, List.count_cons_self,
            List.count_eq_zero_of_not_mem hw, Nat.zero_add]
        · rw [lastLine_append, List.flatMap_cons, List.append_assoc, hflat, List.append_assoc,
            List.singleton_append]
      · obtain ⟨below, hlines⟩ := exists_lines_eq_cons (before ++ after)
        refine ⟨[], below, ?_, (List.count_eq_zero_of_not_mem h).symm, lastLine_of_notMem h⟩
        rw [hlines, lastLine_of_notMem h, firstLine_append h, List.nil_append]

/-- Of the end of a line the carriage returns are dropped, and nothing else. -/
theorem dropReturns_spec (cs : List Char) :
    (∃ n, cs = dropReturns cs ++ List.replicate n '\r') ∧
      (dropReturns cs).getLast? ≠ some '\r' := by
  constructor
  · have hreturns : cs.reverse.takeWhile (· == '\r')
        = List.replicate (cs.reverse.takeWhile (· == '\r')).length '\r' := by
      refine List.eq_replicate_of_mem fun c hc => ?_
      simpa using List.all_eq_true.mp List.all_takeWhile c hc
    have hcut := congrArg List.reverse
      (List.takeWhile_append_dropWhile (p := (· == '\r')) (l := cs.reverse))
    rw [List.reverse_append, hreturns, List.reverse_replicate, List.reverse_reverse] at hcut
    exact ⟨_, hcut.symm⟩
  · intro hlast
    rw [dropReturns, List.getLast?_reverse] at hlast
    have hnot := List.head?_dropWhile_not (· == '\r') cs.reverse
    rw [hlast] at hnot
    exact absurd hnot (by decide)

end Text

open Text (lines byteSize)

/-! ## The width of a range -/

theorem Location.one_le_width (line : List Char) (n : Nat) : 1 ≤ width line n := by
  rw [width]
  split
  · exact Nat.le_max_right _ _
  · exact Nat.le_refl 1

theorem Location.width_le {line : List Char} {n : Nat} (h : 1 < width line n) :
    width line n ≤ line.length := by
  have hle := (Text.splitAtByte_fst_prefix (min n (byteSize line)) line).length_le
  rw [width] at h ⊢
  split
  · next hsize =>
      rw [if_pos hsize] at h
      omega
  · next hsize =>
      rw [if_neg hsize] at h
      omega

/-- A range that ends between two characters is as wide as it has characters, as far as the
line goes. -/
theorem Location.width_append {inside rest : List Char} {n : Nat}
    (h : byteSize inside = min n (byteSize (inside ++ rest))) :
    width (inside ++ rest) n = max inside.length 1 := by
  rw [width, ← h, Text.splitAtByte_append, if_pos rfl]

/-! ## Positions -/

/-- The place at a line and a column, both counted from one, has `offset` bytes in front of
it: the lines above with their line breaks, and the characters to the left in the line
`text`. -/
structure Denotes (source : String) (line column offset : Nat) (text : List Char) : Prop where
  one_le_line : 1 ≤ line
  one_le_column : 1 ≤ column
  line_eq : (lines source.toList)[line - 1]? = some text
  column_le : column - 1 ≤ text.length
  offset_eq : byteSize (((lines source.toList).take (line - 1)).flatMap (· ++ ['\n']))
    + byteSize (text.take (column - 1)) = offset

theorem Denotes.unique {source : String} {line column offset offset' : Nat}
    {text text' : List Char} (h : Denotes source line column offset text)
    (h' : Denotes source line column offset' text') : offset = offset' := by
  obtain rfl : text = text' := Option.some.inj (h.line_eq.symm.trans h'.line_eq)
  exact h.offset_eq.symm.trans h'.offset_eq

/-- The parts of a location, by the text on both sides of its offset. -/
theorem Location.ofSpan_append {path source : String} {before after : List Char}
    (h : source.toList = before ++ after) (len : Nat) :
    ofSpan path source { start := byteSize before, len } =
      { path
        line := before.count '\n' + 1
        column := (Text.lastLine before).length + 1
        len := width (Text.firstLine after) len
        lineText := String.ofList
          (Text.dropReturns (Text.lastLine before ++ Text.firstLine after)) } := by
  rw [ofSpan, h, Text.splitAtByte_append]

theorem denotes_of_append (path : String) {source : String} {before after : List Char}
    (h : source.toList = before ++ after) (len : Nat) :
    Denotes source (Location.ofSpan path source { start := byteSize before, len }).line
      (Location.ofSpan path source { start := byteSize before, len }).column (byteSize before)
      (Text.lastLine before ++ Text.firstLine after) := by
  obtain ⟨above, below, hlines, hcount, hflat⟩ := Text.exists_lines_append before after
  rw [Location.ofSpan_append h]
  refine ⟨Nat.le_add_left 1 _, Nat.le_add_left 1 _, ?_, ?_, ?_⟩
  · rw [h, hlines, Nat.add_sub_cancel, ← hcount, List.getElem?_append_right (Nat.le_refl _),
      Nat.sub_self, List.getElem?_cons_zero]
  · rw [Nat.add_sub_cancel, List.length_append]
    exact Nat.le_add_right _ _
  · rw [h, hlines, Nat.add_sub_cancel, Nat.add_sub_cancel, ← hcount, List.take_left,
      List.take_left, ← Text.byteSize_append, hflat]

end ViewPress
