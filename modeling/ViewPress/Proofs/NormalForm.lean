import Mathlib.Data.List.Chain
import ViewPress.Proofs.Blocks
import ViewPress.Proofs.Recovery

/-!
# Templates are in normal form

Text comes to the machine in portions: a comment, an `inherits` or a tag with a problem
ends one and starts another. The portions are joined in whichever block is open, so that
a body never has two texts next to each other. What a template spells has therefore one
form only, and this file says which, for templates with problems too.

That a joined text holds no opener is the delicate part. A portion in front of a tag is
quiet: no opener starts in it, whatever comes behind. Only the last portion of a template
may end with a brace, and nothing is joined to its end.

Names, paths and blocks need no new argument. A tag of the block grammar carries the proof
that its names are names, and every state that the machine reaches is that of a reading of
the grammar, since a refused tag changes nothing.
-/

namespace ViewPress.Template

open Text (IsDotted IsPath)

/-! ## The normal form -/

def Node.isText : Node → Bool
  | .text _ => true
  | _ => false

/-- The bodies right inside a node: the branches of a branch and the body of a loop. -/
def Node.bodies : Node → List (List Node)
  | .text _ | .emit _ => []
  | .branch _ _ yes no => yes :: no.toList
  | .forEach _ _ body => [body]

/-- `body` is one of the bodies of the tree with the given nodes, at any depth. -/
inductive HasBody : List Node → List Node → Prop where
  | top (nodes : List Node) : HasBody nodes nodes
  | inside {nodes inner body : List Node} {node : Node} (hnode : node ∈ nodes)
      (hinner : inner ∈ node.bodies) (hbody : HasBody inner body) : HasBody nodes body

/-- What is asked of a node without what is inside it, with `P` asked of texts. -/
def Node.Meets (P : List Char → Prop) : Node → Prop
  | .text content => content ≠ "" ∧ P content.toList
  | .emit path => IsPath path
  | .branch cond _ _ _ => IsPath cond
  | .forEach binding source _ => Text.isIdent binding.toList = true ∧ IsPath source

/-- No opener is in the text. -/
def OpenerFree (cs : List Char) : Prop :=
  ∀ kind : TagKind, ¬ kind.opener.toList <:+: cs

/-- A body whose texts are not empty, hold no opener and are not next to each other, and
whose names are names. -/
structure NormalBody (body : List Node) : Prop where
  nodes : ∀ node ∈ body, node.Meets OpenerFree
  apart : body.IsChain fun a b => ¬ (a.isText = true ∧ b.isText = true)

/-- Every body of the tree is normal. -/
def Normal (nodes : List Node) : Prop :=
  ∀ body, HasBody nodes body → NormalBody body

theorem Normal.of_body {nodes : List Node} (hbody : NormalBody nodes)
    (hinner : ∀ node ∈ nodes, ∀ inner ∈ node.bodies, Normal inner) : Normal nodes := by
  intro body h
  cases h with
  | top => exact hbody
  | inside hnode hmem h => exact hinner _ hnode _ hmem body h

theorem Normal.inside {nodes inner : List Node} {node : Node} (h : Normal nodes)
    (hnode : node ∈ nodes) (hinner : inner ∈ node.bodies) : Normal inner :=
  fun body hbody => h body (.inside hnode hinner hbody)

theorem normal_nil : Normal [] :=
  .of_body ⟨by simp, .nil⟩ (by simp)

theorem openerFree_iff {cs : List Char} : OpenerFree cs ↔ Nowhere Opens cs := by
  constructor
  · intro h place hplace hstarts
    obtain ⟨kind, rest, rfl⟩ := exists_of_starts_opens hstarts
    exact h kind (List.infix_iff_prefix_suffix.mpr ⟨_, List.prefix_append _ rest, hplace⟩)
  · intro h kind hopener
    obtain ⟨place, ⟨rest, rfl⟩, hplace⟩ := List.infix_iff_prefix_suffix.mp hopener
    exact h _ hplace (starts_opener kind rest)

/-! ## Joining keeps it -/

/-- A node that can be put in front of a normal body: its text stays free of openers whatever
is joined to it. -/
structure Node.Ready (node : Node) : Prop where
  here : node.Meets (Quiet Opens)
  inside : ∀ inner ∈ node.bodies, Normal inner

theorem consNode_cases (node : Node) (nodes : List Node) :
    (∃ a b rest, node = .text a ∧ nodes = .text b :: rest ∧
        consNode node nodes = .text (a ++ b) :: rest) ∨
      consNode node nodes = node :: nodes ∧
        ∀ next ∈ nodes.head?, ¬ (node.isText = true ∧ next.isText = true) := by
  cases node with
  | text a =>
      cases nodes with
      | nil => exact .inr ⟨rfl, by simp⟩
      | cons next rest =>
          cases next with
          | text b => exact .inl ⟨a, b, rest, rfl, rfl, rfl⟩
          | emit | branch | forEach => exact .inr ⟨rfl, by simp [Node.isText]⟩
  | emit | branch | forEach => exact .inr ⟨rfl, by simp [Node.isText]⟩

theorem Node.Meets.imp {P Q : List Char → Prop} (hPQ : ∀ cs, P cs → Q cs) {node : Node}
    (h : node.Meets P) : node.Meets Q := by
  cases node with
  | text content => exact ⟨h.1, hPQ _ h.2⟩
  | emit | branch | forEach => exact h

theorem normal_consNode {node : Node} {nodes : List Node} (hnode : node.Ready)
    (hnodes : Normal nodes) : Normal (consNode node nodes) := by
  have hbody := hnodes nodes (.top nodes)
  rcases consNode_cases node nodes with ⟨a, b, rest, rfl, rfl, heq⟩ | ⟨heq, hapart⟩
  · -- The texts are joined, and what followed the second follows both.
    obtain ⟨⟨-, hb⟩, hrest⟩ := List.forall_mem_cons.mp hbody.nodes
    obtain ⟨hne, ha⟩ := hnode.here
    obtain ⟨hnext, hchain⟩ := List.isChain_cons.mp hbody.apart
    rw [heq]
    refine .of_body ⟨List.forall_mem_cons.mpr ⟨⟨?_, ?_⟩, hrest⟩,
      List.isChain_cons.mpr ⟨hnext, hchain⟩⟩ (List.forall_mem_cons.mpr ⟨by simp [Node.bodies], ?_⟩)
    · simp [hne]
    · rw [String.toList_append]
      exact openerFree_iff.mpr (ha.nowhere_append (openerFree_iff.mp hb))
    · exact fun n hn inner hinner => hnodes.inside (List.mem_cons_of_mem _ hn) hinner
  · have hhere : node.Meets OpenerFree :=
      hnode.here.imp fun _ hquiet => openerFree_iff.mpr hquiet.nowhere
    rw [heq]
    refine .of_body ⟨List.forall_mem_cons.mpr ⟨hhere, hbody.nodes⟩,
      List.isChain_cons.mpr ⟨hapart, hbody.apart⟩⟩ (List.forall_mem_cons.mpr ⟨hnode.inside, ?_⟩)
    exact fun n hn inner hinner => hnodes.inside hn hinner

theorem normal_foldr_consNode {nodes last : List Node} (hnodes : ∀ node ∈ nodes, node.Ready)
    (hlast : Normal last) : Normal (nodes.foldr consNode last) := by
  induction nodes with
  | nil => exact hlast
  | cons node nodes ih =>
      obtain ⟨hnode, hnodes⟩ := List.forall_mem_cons.mp hnodes
      exact normal_consNode hnode (ih hnodes)

/-! ## Bodies of the grammar -/

/-- No text among the pieces is empty, and none can grow into an opener. -/
def QuietTexts (pieces : List Piece) : Prop :=
  ∀ content, .text content ∈ pieces → content ≠ [] ∧ Quiet Opens content

theorem QuietTexts.subset {pieces pieces' : List Piece} (h : QuietTexts pieces')
    (hsub : pieces ⊆ pieces') : QuietTexts pieces :=
  fun content hcontent => h content (hsub hcontent)

mutual

theorem Item.ready (item : Item) (h : QuietTexts item.pieces) :
    ∀ node ∈ item.nodes, node.Ready := by
  match item with
  | .text content =>
      obtain ⟨hne, hquiet⟩ := h content (by simp [Item.pieces])
      simp only [Item.nodes, List.forall_mem_singleton]
      refine ⟨⟨by simpa using hne, ?_⟩, by simp [Node.bodies]⟩
      rwa [String.toList_ofList]
  | .comment inner => simp [Item.nodes]
  | .emit tag =>
      simp only [Item.nodes, List.forall_mem_singleton]
      exact ⟨tag.isPath, by simp [Node.bodies]⟩
  | .branch opening yes closing =>
      have hyes := normal_body yes (h.subset fun piece hpiece => by simp [Item.pieces, hpiece])
      simp only [Item.nodes, List.forall_mem_singleton]
      exact ⟨opening.isPath, by simpa [Node.bodies] using hyes⟩
  | .branchElse opening yes middle no closing =>
      have hyes := normal_body yes (h.subset fun piece hpiece => by simp [Item.pieces, hpiece])
      have hno := normal_body no (h.subset fun piece hpiece => by simp [Item.pieces, hpiece])
      simp only [Item.nodes, List.forall_mem_singleton]
      exact ⟨opening.isPath, by simpa [Node.bodies] using ⟨hyes, hno⟩⟩
  | .forEach opening body closing =>
      have hbody := normal_body body (h.subset fun piece hpiece => by simp [Item.pieces, hpiece])
      simp only [Item.nodes, List.forall_mem_singleton]
      exact ⟨⟨opening.isIdent, opening.isPath⟩, by simpa [Node.bodies] using hbody⟩

theorem ready_items (items : List Item) (h : QuietTexts (bodyPieces items)) :
    ∀ node ∈ itemNodes items, node.Ready := by
  match items with
  | [] => simp [itemNodes]
  | item :: rest =>
      rw [itemNodes, List.forall_mem_append]
      exact ⟨item.ready (h.subset fun piece hpiece => by simp [bodyPieces, hpiece]),
        ready_items rest (h.subset fun piece hpiece => by simp [bodyPieces, hpiece])⟩

/-- The nodes that a body of the grammar derives are normal. -/
theorem normal_body (items : List Item) (h : QuietTexts (bodyPieces items)) :
    Normal (joinTexts (itemNodes items)) :=
  normal_foldr_consNode (ready_items items h) normal_nil

end

/-! ## Readings with refused tags -/

/-- Whatever a run refuses, it ends in the state of a reading of some of its pieces. -/
theorem exists_reading_of_run (r : Reading) (pieces : List Piece) :
    ∃ r' : Reading, r'.state = (r.state.run (pieces.map Piece.bare)).1 ∧
      r'.pieces ⊆ r.pieces ++ pieces := by
  induction pieces generalizing r with
  | nil => exact ⟨r, rfl, List.subset_append_left _ _⟩
  | cons piece rest ih =>
      rw [List.map_cons, State.run]
      cases hstep : r.state.step piece.bare with
      | ok next =>
          obtain ⟨r', hmove, rfl⟩ := exists_move hstep
          obtain ⟨r'', hstate, hpieces⟩ := ih r'
          refine ⟨r'', hstate, ?_⟩
          rwa [hmove.pieces, List.append_assoc, List.singleton_append] at hpieces
      | error problem =>
          obtain ⟨r', hstate, hpieces⟩ := ih r
          refine ⟨r', hstate, List.Subset.trans hpieces ?_⟩
          exact ((List.sublist_cons_self piece rest).append_left r.pieces).subset

theorem Document.bodyPieces_items_subset (d : Document) : bodyPieces d.items ⊆ d.pieces := by
  cases d with
  | plain body => exact List.Subset.refl _
  | derived before tag after =>
      intro piece hpiece
      rw [items, bodyPieces_append, List.mem_append] at hpiece
      rw [pieces, List.mem_append]
      exact hpiece.imp_right (List.mem_cons_of_mem _)

/-- The nodes of a reading, and those with a last text behind them if no block is open. -/
theorem Reading.nodes_run_textPiece (r : Reading) (last : List Char) :
    ∃ tail, (r.state.run ((textPiece last).map Piece.bare)).1.nodes
        = (itemNodes r.document.items).foldr consNode tail ∧
      (tail = [] ∨ last ≠ [] ∧ tail = [.text (String.ofList last)]) := by
  obtain ⟨document, blocks⟩ := r
  cases last with
  | nil => exact ⟨[], rfl, .inl rfl⟩
  | cons c last =>
      cases blocks with
      | cons block rest => exact ⟨[], rfl, .inl rfl⟩
      | nil =>
          refine ⟨_, ?_, .inr ⟨List.cons_ne_nil c last, rfl⟩⟩
          show appendNode (joinTexts (itemNodes document.items)) (.text (String.ofList (c :: last)))
            = _
          have hjoin := joinTexts_append (itemNodes document.items)
            [.text (String.ofList (c :: last))]
          rw [List.foldl_cons, List.foldl_nil, joinTexts, List.foldr_append] at hjoin
          exact hjoin.symm

theorem Reading.inherits_run_textPiece (r : Reading) (last : List Char) :
    (r.state.run ((textPiece last).map Piece.bare)).1.inherits = r.document.inherits := by
  obtain ⟨document, blocks⟩ := r
  cases last with
  | nil => rfl
  | cons c last => cases blocks <;> rfl

/-! ## Templates -/

theorem quietTexts_textPiece {cs : List Char} (h : Quiet Opens cs) : QuietTexts (textPiece cs) := by
  intro content hcontent
  cases cs with
  | nil => cases hcontent
  | cons c cs =>
      cases List.mem_singleton.mp hcontent
      exact ⟨List.cons_ne_nil c cs, h⟩

theorem QuietTexts.append_cons {pieces rest : List Piece} {piece : Piece}
    (hpieces : QuietTexts pieces) (hpiece : ∀ content, piece ≠ .text content)
    (hrest : QuietTexts rest) : QuietTexts (pieces ++ piece :: rest) := by
  intro content hcontent
  rcases List.mem_append.mp hcontent with hcontent | hcontent
  · exact hpieces content hcontent
  · rcases List.mem_cons.mp hcontent with heq | hcontent
    · exact absurd heq.symm (hpiece content)
    · exact hrest content hcontent

/-- All texts of a template but one at its end are in front of a tag, so they are quiet. -/
theorem Cut.exists_front {cs : List Char} {pieces : List Piece} (h : Cut cs pieces) :
    ∃ front last, pieces = front ++ textPiece last ∧ QuietTexts front ∧ Nowhere Opens last := by
  have hnil : QuietTexts [] := fun _ hcontent => absurd hcontent List.not_mem_nil
  induction h with
  | @text cs hopen => exact ⟨[], cs, rfl, hnil, hopen⟩
  | unclosed hopen hclose =>
      refine ⟨_, [], (List.append_nil _).symm, ?_, nowhere_nil⟩
      exact (quietTexts_textPiece (quiet_of_firstAt hopen)).append_cons (by simp) hnil
  | tag hopen hclose hrest ih =>
      obtain ⟨front, last, rfl, hfront, hlast⟩ := ih
      refine ⟨_, last, (List.append_assoc _ (_ :: front) _).symm, ?_, hlast⟩
      exact (quietTexts_textPiece (quiet_of_firstAt hopen)).append_cons (by simp) hfront

theorem normal_text {cs : List Char} (hne : cs ≠ []) (h : Nowhere Opens cs) :
    Normal [.text (String.ofList cs)] := by
  refine .of_body ⟨?_, .singleton _⟩ (by simp [Node.bodies])
  rw [List.forall_mem_singleton]
  refine ⟨by simpa using hne, ?_⟩
  rw [String.toList_ofList]
  exact openerFree_iff.mpr h

theorem Document.isDotted_of_mem_inherits (document : Document) :
    ∀ name ∈ document.inherits, IsDotted name := by
  cases document with
  | plain body => simp [Document.inherits]
  | derived before tag after =>
      rintro _ ⟨⟩
      exact tag.isDotted

/-- Every body of the template is normal and the base that it names is a dotted identifier. -/
structure IsNormal (t : Template) : Prop where
  nodes : ∀ body, HasBody t.nodes body → NormalBody body
  inherits : ∀ name ∈ t.inherits, IsDotted name

/-- What is parsed of a template, with problems or without, is in normal form. -/
theorem parse_isNormal (source : String) : (parse source).1.IsNormal := by
  obtain ⟨pieces, hcut⟩ := exists_cut source.toList
  obtain ⟨front, last, rfl, hfront, hlast⟩ := hcut.exists_front
  obtain ⟨r, hstate, hpieces⟩ := exists_reading_of_run {} front
  have hrun : (State.run {} ((front ++ textPiece last).map Piece.bare)).1
      = (r.state.run ((textPiece last).map Piece.bare)).1 := by
    rw [List.map_append, State.run_append, hstate]
    rfl
  rw [hcut.parse_template, hrun]
  constructor
  · have hdocument : r.document.pieces ⊆ front :=
      List.Subset.trans (List.subset_append_left _ _) hpieces
    have hitems : QuietTexts (bodyPieces r.document.items) :=
      hfront.subset (List.Subset.trans r.document.bodyPieces_items_subset hdocument)
    obtain ⟨tail, hnodes, htail⟩ := r.nodes_run_textPiece last
    rw [hnodes]
    refine normal_foldr_consNode (ready_items _ hitems) ?_
    rcases htail with rfl | ⟨hne, rfl⟩
    · exact normal_nil
    · exact normal_text hne hlast
  · rw [r.inherits_run_textPiece last]
    exact r.document.isDotted_of_mem_inherits

end ViewPress.Template
