import Mathlib.Data.List.Forall2
import ViewPress.Proofs.Derivations
import ViewPress.Proofs.Spelling

/-!
# The parts of a tree in the text

Attributes, the names of declarations and bases, and the paths of statements are the
parts of a tree that stand somewhere. They are listed here in the order of the text,
once as the spans of a tree and once as the tokens of a derivation.

`Covers ts spans nodes` ties the two lists to the lexemes they come from: one behind
the other there are runs of neighbours in `ts`, each with the tokens of one node and
with the bytes of its span, from the first lexeme of the run to the last. Where the
lexemes are laid out in a text, the bytes of each span are therefore a text of their
own, which spells the tokens of the node.
-/

namespace ViewPress.Source

open Text (byteSize byteSize_append)

/-! ## Spans of trees, nodes of derivations -/

mutual

def Statement.spans : Statement → List Span
  | .write _ => []
  | .emit path => [path.span]
  | .branch cond _ yes none => cond.span :: statementsSpans yes
  | .branch cond _ yes (some no) => cond.span :: (statementsSpans yes ++ statementsSpans no)
  | .forEach _ source body => source.span :: statementsSpans body

def statementsSpans : List Statement → List Span
  | [] => []
  | s :: rest => s.spans ++ statementsSpans rest

end

/-- The spans of a declaration: its attributes, its name, its bases, and the paths in its
statements. -/
def Declaration.spans (d : Declaration) : List Span :=
  d.attributes.map (·.span) ++ d.span :: (d.bases.map (·.span)
    ++ (d.render.map statementsSpans).getD [])

namespace Derivation

mutual

def Statement.nodes : Statement → List (List Token)
  | .write _ => []
  | .emit path => [path.tokens]
  | .branch _ cond yes => cond.tokens :: statementsNodes yes
  | .branchElse _ cond yes no => cond.tokens :: (statementsNodes yes ++ statementsNodes no)
  | .forEach _ source body => source.tokens :: statementsNodes body

def statementsNodes : List Statement → List (List Token)
  | [] => []
  | s :: rest => s.nodes ++ statementsNodes rest

end

/-- The tokens of the parts of a declaration that have a span: attributes from `#` to `]`,
and names with their points. -/
def Declaration.nodes (d : Declaration) : List (List Token) :=
  d.attributes.map Attribute.tokens ++ d.name.tokens :: (d.bases.map Name.tokens
    ++ (d.render.map statementsNodes).getD [])

end Derivation

/-! ## Runs of lexemes -/

/-- A punctuation mark has one byte. -/
def Lexeme.Narrow (l : Lexeme) : Prop :=
  ∀ c, l.token = .punct c → l.span.len = 1

/-- Where the last of the lexemes ends, or `stop` if there are none. -/
def lastStop (stop : Nat) : List Lexeme → Nat
  | [] => stop
  | l :: ts => lastStop l.span.stop ts

/-- The bytes from the start of `l` to the end of the last lexeme behind it. -/
def cover (l : Lexeme) (us : List Lexeme) : Span :=
  { start := l.span.start, len := lastStop l.span.stop us - l.span.start }

/-- Among the lexemes are runs with these tokens, one behind the other, that have these
spans. -/
inductive Covers : List Lexeme → List Span → List (List Token) → Prop where
  | nil : Covers [] [] []
  | skip (l : Lexeme) {ts : List Lexeme} {spans : List Span} {nodes : List (List Token)}
      (h : Covers ts spans nodes) : Covers (l :: ts) spans nodes
  | node {l : Lexeme} {us ts : List Lexeme} {span : Span} {spans : List Span}
      {nodes : List (List Token)} (hspan : (∀ m ∈ l :: us, m.Narrow) → span = cover l us)
      (h : Covers ts spans nodes) :
      Covers (l :: us ++ ts) (span :: spans) ((l :: us).map Lexeme.token :: nodes)

theorem Covers.append {ts us : List Lexeme} {spans spans' : List Span}
    {nodes nodes' : List (List Token)} (h : Covers ts spans nodes)
    (h' : Covers us spans' nodes') : Covers (ts ++ us) (spans ++ spans') (nodes ++ nodes') := by
  induction h with
  | nil => exact h'
  | skip l _ ih => exact ih.skip l
  | node hspan _ ih =>
      rw [List.append_assoc]
      exact ih.node hspan

/-! ## Cut out of the text -/

theorem Laid.narrow {pos : Nat} {cs tail : List Char} {lexemes : List Lexeme}
    (h : Laid pos cs lexemes tail) {l : Lexeme} (hl : l ∈ lexemes) : l.Narrow := by
  induction h with
  | nil => cases hl
  | cons _ hbody _ _ ih =>
      rcases List.mem_cons.mp hl with rfl | hl
      · intro c hc
        cases hbody with
        | ident | str => cases hc
        | punct hpunct => exact utf8Size_of_isPunct hpunct
      · exact ih hl

theorem Token.Ends.of_append {token : Token} {cs tail : List Char}
    (h : token.Ends (cs ++ tail)) : token.Ends cs := by
  intro x hx c hc
  refine h x hx c ?_
  cases cs with
  | nil => cases hc
  | cons d cs => exact hc

/-- A gap in front of something may stand in front of anything. -/
theorem Gap.of_ne_nil {rest gap : List Char} (h : Gap rest gap) (hrest : rest ≠ [])
    (rest' : List Char) : Gap rest' gap := by
  induction h with
  | nil => exact .nil
  | blank hc _ ih => exact .blank hc ih
  | comment hline _ ih => exact .comment hline ih
  | lastComment _ hnil => exact absurd hnil hrest

/-- Neighbours are cut out of the text with the gaps between them, and the slice spells their
tokens. -/
theorem Laid.exists_slice {pos : Nat} {cs tail : List Char} {l : Lexeme} {us : List Lexeme}
    (h : Laid pos cs (l :: us) tail) :
    ∃ gap slice, slice ≠ [] ∧ (∀ rest, Gap rest gap) ∧ cs = gap ++ (slice ++ tail) ∧
      Spells slice ((l :: us).map Lexeme.token) ∧ l.span.start = pos + byteSize gap ∧
      lastStop l.span.stop us = pos + byteSize gap + byteSize slice := by
  induction us generalizing pos cs l with
  | nil =>
      cases h with
      | @cons _ gap body _ _ token _ hgap hbody _ h =>
          cases h
          have hspells : Spells (body ++ []) [token] :=
            .token hbody (fun _ _ _ hc => by cases hc) .nil
          rw [List.append_nil] at hspells
          have hne : body ++ tail ≠ [] := fun h => hbody.ne_nil (List.append_eq_nil_iff.mp h).1
          exact ⟨gap, body, hbody.ne_nil, hgap.of_ne_nil hne, rfl, hspells, rfl, rfl⟩
  | cons m us ih =>
      cases h with
      | @cons _ gap body cs _ token _ hgap hbody hends h =>
          obtain ⟨gap', slice, hslice, hgap', rfl, hspells, -, hstop⟩ := ih h
          rw [← List.append_assoc] at hends
          have hne : body ++ (gap' ++ (slice ++ tail)) ≠ [] := fun h =>
            hbody.ne_nil (List.append_eq_nil_iff.mp h).1
          refine ⟨gap, body ++ (gap' ++ slice), ?_, hgap.of_ne_nil hne, ?_, ?_, rfl, ?_⟩
          · exact fun h => hbody.ne_nil (List.append_eq_nil_iff.mp h).1
          · simp only [List.append_assoc]
          · exact .token hbody hends.of_append (.gap (hgap' slice) hspells)
          · rw [lastStop, hstop, byteSize_append, byteSize_append]
            omega

/-- The bytes of the span are characters of the text, which starts at offset `pos`, and these
characters alone spell the tokens. -/
def Shows (pos : Nat) (cs : List Char) (span : Span) (tokens : List Token) : Prop :=
  ∃ before slice after, cs = before ++ (slice ++ after) ∧ span.start = pos + byteSize before ∧
    span.len = byteSize slice ∧ Spells slice tokens

theorem Shows.append {pos : Nat} {cs : List Char} {span : Span} {tokens : List Token}
    (before : List Char) (h : Shows (pos + byteSize before) cs span tokens) :
    Shows pos (before ++ cs) span tokens := by
  obtain ⟨more, slice, after, rfl, hstart, hlen, hspells⟩ := h
  refine ⟨before ++ more, slice, after, by simp only [List.append_assoc], ?_, hlen, hspells⟩
  rw [hstart, byteSize_append, Nat.add_assoc]

/-- The bytes of the span are whole characters of the source, and these characters alone are
cut into the tokens. -/
def Exhibits (source : String) (span : Span) (tokens : List Token) : Prop :=
  ∃ before slice after, source.toList = before ++ (slice ++ after) ∧
    span.start = byteSize before ∧ span.len = byteSize slice ∧
    Tokenizes (String.ofList slice) tokens

theorem Shows.exhibits {source : String} {span : Span} {tokens : List Token}
    (h : Shows 0 source.toList span tokens) : Exhibits source span tokens := by
  obtain ⟨before, slice, after, hcut, hstart, hlen, hspells⟩ := h
  rw [Nat.zero_add] at hstart
  refine ⟨before, slice, after, hcut, hstart, hlen, tokenizes_iff_spells.mpr ?_⟩
  rwa [String.toList_ofList]

/-- Each span shows its node, and the spans follow one another in the text. -/
theorem Covers.shows {pos : Nat} {cs tail : List Char} {ts : List Lexeme} {spans : List Span}
    {nodes : List (List Token)} (h : Covers ts spans nodes) (hlaid : Laid pos cs ts tail) :
    List.Forall₂ (Shows pos cs) spans nodes ∧
      (spans.Pairwise fun a b => a.start < b.start ∧ a.stop ≤ b.start) ∧
      ∀ span ∈ spans, pos ≤ span.start := by
  induction h generalizing pos cs with
  | nil => exact ⟨.nil, .nil, nofun⟩
  | skip l _ ih =>
      cases hlaid with
      | @cons _ gap body cs _ _ _ _ _ _ hrest =>
          rw [Nat.add_assoc, ← byteSize_append] at hrest
          obtain ⟨hshows, hpairwise, hstart⟩ := ih hrest
          refine ⟨?_, hpairwise, fun span hspan => ?_⟩
          · rw [← List.append_assoc]
            exact hshows.imp fun _ _ => Shows.append (gap ++ body)
          · exact Nat.le_trans (Nat.le_add_right _ _) (hstart span hspan)
  | @node l us ts span spans nodes hspan _ ih =>
      obtain ⟨before, rest, hcut, hfirst, hsecond⟩ := hlaid.exists_of_append
      obtain ⟨gap, slice, hne, -, hcs, hspells, hstart, hstop⟩ := hfirst.exists_slice
      obtain rfl : before = gap ++ slice := by
        rw [hcut, ← List.append_assoc] at hcs
        exact List.append_cancel_right hcs
      have hpos := Text.byteSize_pos hne
      obtain rfl := hspan fun m hm => hfirst.narrow hm
      obtain ⟨hshows, hpairwise, hbound⟩ := ih hsecond
      rw [byteSize_append] at hbound
      refine ⟨.cons ?_ ?_, .cons ?_ hpairwise, ?_⟩
      · refine ⟨gap, slice, rest, hcs, hstart, ?_, hspells⟩
        rw [cover, hstop, hstart, Nat.add_sub_cancel_left]
      · rw [hcut]
        exact hshows.imp fun _ _ => Shows.append (gap ++ slice)
      · intro span hspan
        have := hbound span hspan
        rw [Span.stop, cover]
        dsimp only
        omega
      · intro span hspan
        rcases List.mem_cons.mp hspan with rfl | hspan
        · rw [cover, hstart]
          exact Nat.le_add_right _ _
        · have := hbound span hspan
          omega

end ViewPress.Source
