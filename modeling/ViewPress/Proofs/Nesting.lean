import Mathlib.Tactic.SplitIfs
import ViewPress.Proofs.Codec

/-!
# How deep a payload nests

The reader of modules stops at 127 arrays and objects inside one another. This file
says what that means for the two things a writer can see. In the text of a payload
it is the number of brackets that are open at once, not counting those inside
strings. In the module it is the number of instructions inside one another: a branch
or a loop takes three levels of the payload, the module around them takes four, and
so a module is read back if and only if none of its instructions is inside 41 others.

A scan over the text keeps the number of open brackets and the largest number so
far. `Spans cs n` says that `cs` leaves a scan as it found it but for `n` levels
that were open on the way; it goes through everything the printer does.
-/

namespace ViewPress.Json

/-! ## Brackets in JSON text -/

/-- Where a scan of JSON text is: outside of strings, in a string, or in a string behind a
backslash. -/
inductive ScanMode where
  | outside
  | quoted
  | escaped
  deriving DecidableEq, Repr

/-- The brackets that are open, and how many were open at once. -/
structure Scan where
  mode : ScanMode := .outside
  level : Nat := 0
  deepest : Nat := 0
  deriving DecidableEq, Repr

def Scan.step (scan : Scan) (c : Char) : Scan :=
  match scan.mode with
  | .outside =>
      if c = '"' then { scan with mode := .quoted }
      else if c = '[' ∨ c = '{' then
        { scan with level := scan.level + 1, deepest := max scan.deepest (scan.level + 1) }
      else if c = ']' ∨ c = '}' then { scan with level := scan.level - 1 }
      else scan
  | .quoted =>
      if c = '"' then { scan with mode := .outside }
      else if c = '\\' then { scan with mode := .escaped }
      else scan
  | .escaped => { scan with mode := .quoted }

/-- How many arrays and objects are open at once in JSON text. -/
def bracketDepth (text : String) : Nat :=
  (text.toList.foldl Scan.step {}).deepest

/-- Brackets are closed in order, with `n` of them open at once. -/
def Spans (cs : List Char) (n : Nat) : Prop :=
  ∀ level deepest, level ≤ deepest →
    cs.foldl Scan.step { level, deepest } = { level, deepest := max deepest (level + n) }

theorem Spans.append {cs ds : List Char} {m n : Nat} (hcs : Spans cs m) (hds : Spans ds n) :
    Spans (cs ++ ds) (max m n) := by
  intro level deepest hlevel
  have hle : level ≤ max deepest (level + m) := by omega
  have hmax : max (max deepest (level + m)) (level + n) = max deepest (level + max m n) := by omega
  rw [List.foldl_append, hcs level deepest hlevel, hds level _ hle, hmax]

/-- Characters outside of strings that are no brackets. -/
theorem spans_of_all {cs : List Char} (h : cs.all (· ∉ ['"', '[', '{', ']', '}']) = true) :
    Spans cs 0 := by
  intro level deepest hlevel
  rw [Nat.add_zero, Nat.max_eq_left hlevel]
  induction cs with
  | nil => rfl
  | cons c cs ih =>
      rw [List.all_cons, Bool.and_eq_true, decide_eq_true_iff] at h
      obtain ⟨hc, hcs⟩ := h
      simp only [List.mem_cons, List.not_mem_nil, or_false, not_or] at hc
      obtain ⟨hquote, hopen, hopen', hclose, hclose'⟩ := hc
      have hstep : Scan.step { level, deepest } c = { level, deepest } :=
        (if_neg hquote).trans <| (if_neg (not_or.mpr ⟨hopen, hopen'⟩)).trans <|
          if_neg (not_or.mpr ⟨hclose, hclose'⟩)
      rw [List.foldl_cons, hstep, ih hcs]

theorem Spans.bracketed {cs : List Char} {n : Nat} (h : Spans cs n) {opening closing : Char}
    (hopening : opening = '[' ∨ opening = '{') (hclosing : closing = ']' ∨ closing = '}') :
    Spans (opening :: cs ++ [closing]) (n + 1) := by
  intro level deepest hlevel
  have hopen : Scan.step { level, deepest } opening
      = { level := level + 1, deepest := max deepest (level + 1) } := by
    rcases hopening with rfl | rfl <;> rfl
  have hclose (top : Nat) :
      Scan.step { level := level + 1, deepest := top } closing = { level, deepest := top } := by
    rcases hclosing with rfl | rfl <;> rfl
  have hmax : max (max deepest (level + 1)) (level + 1 + n) = max deepest (level + (n + 1)) := by
    omega
  rw [List.cons_append, List.foldl_cons, hopen, List.foldl_append, h _ _ (Nat.le_max_right _ _),
    hmax]
  exact hclose _

/-! ## Strings -/

/-- Characters inside of a string that do not end it. -/
theorem foldl_step_quoted {cs : List Char} (h : ∀ c ∈ cs, c ≠ '"' ∧ c ≠ '\\')
    (level deepest : Nat) :
    cs.foldl Scan.step { mode := .quoted, level, deepest }
      = { mode := .quoted, level, deepest } := by
  induction cs with
  | nil => rfl
  | cons c cs ih =>
      obtain ⟨⟨hquote, hescape⟩, hcs⟩ := List.forall_mem_cons.mp h
      have hstep : Scan.step { mode := .quoted, level, deepest } c
          = { mode := .quoted, level, deepest } :=
        (if_neg hquote).trans (if_neg hescape)
      rw [List.foldl_cons, hstep, ih hcs]

/-- The hexadecimal digits of a control character. -/
theorem ne_of_mem_hexOfByte {n : Nat} (h : n < 0x20) :
    ∀ c ∈ Text.hexOfByte n.toUInt8, c ≠ '"' ∧ c ≠ '\\' := by
  have hall : ∀ n < 0x20,
      (Text.hexOfByte n.toUInt8).all (fun c => c ≠ '"' ∧ c ≠ '\\') = true := by
    decide
  intro c hc
  exact of_decide_eq_true (List.all_eq_true.mp (hall n h) c hc)

/-- A character stands for itself, or a backslash hides the one character that could end the
string. -/
theorem escapeChar_cases (c : Char) :
    (escapeChar c = [c] ∧ c ≠ '"' ∧ c ≠ '\\') ∨
      ∃ hidden rest, escapeChar c = '\\' :: hidden :: rest ∧ ∀ d ∈ rest, d ≠ '"' ∧ d ≠ '\\' := by
  have hescaped := escapeChar.eq_def c
  split_ifs at hescaped with hquote hescape _ _ _ _ _ hcontrol
  -- Seven characters have an escape of their own.
  any_goals exact .inr ⟨_, [], hescaped, fun d hd => nomatch hd⟩
  · refine .inr ⟨'u', '0' :: '0' :: Text.hexOfByte c.toNat.toUInt8, hescaped, ?_⟩
    exact List.forall_mem_cons.mpr ⟨by decide, List.forall_mem_cons.mpr
      ⟨by decide, ne_of_mem_hexOfByte hcontrol⟩⟩
  · exact .inl ⟨hescaped, hquote, hescape⟩

theorem foldl_step_escapeChar (c : Char) (level deepest : Nat) :
    (escapeChar c).foldl Scan.step { mode := .quoted, level, deepest }
      = { mode := .quoted, level, deepest } := by
  rcases escapeChar_cases c with ⟨hself, hplain⟩ | ⟨hidden, rest, hescaped, hrest⟩
  · rw [hself]
    exact foldl_step_quoted (List.forall_mem_singleton.mpr hplain) level deepest
  · rw [hescaped]
    exact foldl_step_quoted hrest level deepest

theorem spans_quote (s : String) : Spans (quote s).toList 0 := by
  intro level deepest hlevel
  have hinside (cs : List Char) :
      (cs.flatMap escapeChar).foldl Scan.step { mode := .quoted, level, deepest }
        = { mode := .quoted, level, deepest } := by
    induction cs with
    | nil => rfl
    | cons c cs ih =>
        rw [List.flatMap_cons, List.foldl_append, foldl_step_escapeChar, ih]
  have hopen : Scan.step { level, deepest } '"' = { mode := .quoted, level, deepest } := rfl
  rw [quote, String.toList_ofList, List.cons_append, List.foldl_cons, hopen, List.foldl_append,
    hinside, Nat.add_zero, Nat.max_eq_left hlevel]
  rfl

/-! ## Values -/

theorem spans_member (key : String) {text : String} {n : Nat} (h : Spans text.toList n) :
    Spans (quote key ++ ":" ++ text).toList n := by
  have hcolon : Spans ":".toList 0 := spans_of_all (by decide)
  have hall := ((spans_quote key).append hcolon).append h
  rw [String.toList_append, String.toList_append]
  rwa [Nat.max_self, Nat.zero_max] at hall

mutual

theorem spans_compact (j : Json) (hj : j.Plain) : Spans j.compact.toList j.nesting := by
  match j with
  | .null =>
      simp only [compact, nesting]
      exact spans_of_all (by decide)
  | .bool b =>
      simp only [compact, nesting]
      cases b with
      | true => exact spans_of_all (by decide)
      | false => exact spans_of_all (by decide)
  | .num n => simp only [Plain] at hj
  | .str s =>
      simp only [compact, nesting]
      exact spans_quote s
  | .arr items =>
      rw [Plain] at hj
      rw [compact, nesting, String.toList_append, String.toList_append]
      exact (spans_compactItems items hj).bracketed (.inl rfl) (.inl rfl)
  | .obj members =>
      rw [Plain] at hj
      rw [compact, nesting, String.toList_append, String.toList_append]
      exact (spans_compactMembers members hj).bracketed (.inr rfl) (.inr rfl)
  | .garbled => simp only [Plain] at hj

theorem spans_compactItems (items : List Json) (hitems : PlainItems items) :
    Spans (compactItems items).toList (nestingItems items) := by
  match items with
  | [] =>
      rw [compactItems, nestingItems]
      exact spans_of_all (by decide)
  | [j] =>
      rw [PlainItems] at hitems
      rw [compactItems, nestingItems, nestingItems, Nat.max_zero]
      exact spans_compact j hitems.1
  | j :: k :: rest =>
      rw [PlainItems] at hitems
      have hcomma : Spans ",".toList 0 := spans_of_all (by decide)
      have hall := ((spans_compact j hitems.1).append hcomma).append
        (spans_compactItems (k :: rest) hitems.2)
      rw [nestingItems, compactItems, String.toList_append, String.toList_append]
      · rwa [Nat.max_zero] at hall
      · exact List.cons_ne_nil k rest

theorem spans_compactMembers (members : List (String × Json)) (hmembers : PlainMembers members) :
    Spans (compactMembers members).toList (nestingMembers members) := by
  match members with
  | [] =>
      rw [compactMembers, nestingMembers]
      exact spans_of_all (by decide)
  | [(key, j)] =>
      rw [PlainMembers] at hmembers
      rw [compactMembers, nestingMembers, nestingMembers, Nat.max_zero]
      exact spans_member key (spans_compact j hmembers.1)
  | (key, j) :: m :: rest =>
      rw [PlainMembers] at hmembers
      have hcomma : Spans ",".toList 0 := spans_of_all (by decide)
      have hall := ((spans_member key (spans_compact j hmembers.1)).append hcomma).append
        (spans_compactMembers (m :: rest) hmembers.2)
      rw [nestingMembers, compactMembers, String.toList_append, String.toList_append]
      · rwa [Nat.max_zero] at hall
      · exact List.cons_ne_nil m rest

end

/-- The brackets that are open at once in compact text are the levels of the value. -/
theorem bracketDepth_compact {j : Json} (h : j.Plain) : bracketDepth j.compact = j.nesting := by
  have hscan := spans_compact j h 0 0 (Nat.le_refl 0)
  rw [bracketDepth, hscan, Nat.zero_add]
  exact Nat.zero_max _

example : bracketDepth "[\"\\\"[[\",[\x7b\x7d],[]]" = 3 := by decide

theorem nestingItems_map_le_iff {α : Type} {toJson : α → Json} {xs : List α} {n : Nat} :
    nestingItems (xs.map toJson) ≤ n ↔ ∀ x ∈ xs, (toJson x).nesting ≤ n := by
  induction xs with
  | nil => simp [nestingItems]
  | cons x xs ih => rw [List.map_cons, nestingItems, Nat.max_le, ih, List.forall_mem_cons]

end ViewPress.Json

namespace ViewPress

open Json (bracketDepth bracketDepth_compact nestingItems nestingItems_map_le_iff)

/-! ## Instructions inside one another -/

mutual

/-- How many instructions are inside one another, this one included. -/
def Instr.height : Instr → Nat
  | .write _ => 1
  | .emit _ => 1
  | .branch _ _ yes no => max (bodyHeight yes) (bodyHeight no) + 1
  | .forEach _ _ body => bodyHeight body + 1

def bodyHeight : List Instr → Nat
  | [] => 0
  | i :: rest => max i.height (bodyHeight rest)

end

mutual

/-- Each instruction around another one adds three levels; the innermost one adds one, two
or three. -/
theorem Instr.nesting_bounds (i : Instr) :
    3 * i.height ≤ i.toJson.nesting + 2 ∧ i.toJson.nesting ≤ 3 * i.height := by
  match i with
  | .write text =>
      rw [Instr.height, Instr.nesting_write]
      omega
  | .emit path =>
      rw [Instr.height, Instr.nesting_emit]
      omega
  | .branch cond negate yes no =>
      have hyes := nestingItems_bounds yes
      have hno := nestingItems_bounds no
      rw [Instr.height, Instr.nesting_branch]
      omega
  | .forEach binding source body =>
      have hbody := nestingItems_bounds body
      rw [Instr.height, Instr.nesting_forEach]
      omega

theorem nestingItems_bounds (body : List Instr) :
    3 * bodyHeight body ≤ nestingItems (body.map Instr.toJson) + 2 ∧
      nestingItems (body.map Instr.toJson) ≤ 3 * bodyHeight body := by
  match body with
  | [] =>
      rw [bodyHeight, List.map_nil, nestingItems]
      omega
  | i :: rest =>
      have hi := i.nesting_bounds
      have hrest := nestingItems_bounds rest
      rw [bodyHeight, List.map_cons, nestingItems]
      omega

end

/-- There is room for a type behind the two levels of its module if no instruction in it is
more than 41 instructions high. -/
theorem TypeDef.nesting_toJson_le_iff (t : TypeDef) :
    t.toJson.nesting ≤ 125 ↔ ∀ i ∈ t.body, i.height ≤ 41 := by
  have hattributes : nestingItems (t.attributes.map AttributeDef.toJson) ≤ 2 :=
    nestingItems_map_le_iff.mpr fun a _ => Nat.le_of_eq a.nesting_toJson
  have hbody : t.toJson.nesting ≤ 125 ↔ nestingItems (t.body.map Instr.toJson) ≤ 123 := by
    rw [t.nesting_toJson]
    omega
  rw [hbody, nestingItems_map_le_iff]
  refine forall₂_congr fun i _ => ?_
  have hi := i.nesting_bounds
  omega

theorem Module.nesting_toJson_le_iff (m : Module) :
    m.toJson.nesting ≤ 127 ↔ ∀ t ∈ m.types, ∀ i ∈ t.body, i.height ≤ 41 := by
  have htypes : m.toJson.nesting ≤ 127 ↔ nestingItems (m.types.map TypeDef.toJson) ≤ 125 := by
    rw [m.nesting_toJson]
    omega
  rw [htypes, nestingItems_map_le_iff]
  exact forall₂_congr fun t _ => t.nesting_toJson_le_iff

/-- Reading inverts writing for every module whose payload has at most 127 brackets open at
once, with any digest, and gives no module for the others. These are the modules in which no
more than 41 instructions are inside one another. The last case is no real one: the length of
such a payload does not fit its field. -/
theorem Module.decodeWith_inverts_encodeWith (hash : List UInt8 → Digest.Hash) (m : Module) :
    decodeWith hash (encodeWith hash m) =
        (if (Text.utf8 m.payload).length < 2 ^ 64 then
          if bracketDepth m.payload ≤ 127 then .ok m else .error .malformed
        else
          .error (.truncated
            (min (headerLength + (Text.utf8 m.payload).length % 2 ^ 64) Number.maxUnsigned)
            (headerLength + (Text.utf8 m.payload).length))) ∧
      (bracketDepth m.payload ≤ 127 ↔ ∀ t ∈ m.types, ∀ i ∈ t.body, i.height ≤ 41) := by
  have hdepth : bracketDepth m.payload = m.toJson.nesting := bracketDepth_compact m.plain_toJson
  rw [hdepth]
  exact ⟨decodeWith_encodeWith hash m, m.nesting_toJson_le_iff⟩

end ViewPress
