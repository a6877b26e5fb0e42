import ViewPress.Proofs.Cutting
import ViewPress.Proofs.Names

/-!
# The block grammar of templates

The machine that reads templates has a stack of open blocks, switches a block to its
second branch, and joins text to whatever was written last. The grammar it accepts has
none of that: a body is a list of items, a block is an opening tag, a body and a closing
tag, and a document is a body with at most one `inherits` in it. The nodes of a body
are those of its items, with neighbouring texts joined.

The two meet in `Reading`, a document that is not finished: the items that are complete
and the blocks that are still open, each with the items it has so far. The state of the
machine is read off a reading, and `Move` says how a reading takes one more piece. The
steps of the machine that succeed are exactly the moves.
-/

namespace ViewPress.Template

open Text (IsDotted IsPath joinDots)

/-! ## Tags -/

/-- The words of a directive. -/
def wordsOf (inner : List Char) : List String :=
  (Text.words inner).map String.ofList

/-- A tag that emits a value: a path between blanks. -/
structure EmitTag where
  inner : List Char
  path : List String
  isPath : IsPath path
  spelled : Text.trim inner = (joinDots path).toList

/-- The words of a tag that opens a branch on the path `path`. -/
def ifWords (path : String) : Bool → List String
  | true => ["if", "not", path]
  | false => ["if", path]

structure IfTag where
  inner : List Char
  path : List String
  negate : Bool
  isPath : IsPath path
  spelled : wordsOf inner = ifWords (joinDots path) negate

structure ForTag where
  inner : List Char
  binding : String
  source : List String
  isIdent : Text.isIdent binding.toList = true
  isPath : IsPath source
  spelled : wordsOf inner = ["for", binding, "in", joinDots source]

structure InheritsTag where
  inner : List Char
  name : String
  isDotted : IsDotted name
  spelled : wordsOf inner = ["inherits", name]

/-- A directive of one word. -/
structure WordTag (word : String) where
  inner : List Char
  spelled : wordsOf inner = [word]

/-! ## Derivations -/

/-- What a body is made of. -/
inductive Item where
  | text (content : List Char)
  | comment (inner : List Char)
  | emit (tag : EmitTag)
  | branch (opening : IfTag) (yes : List Item) (closing : WordTag "endif")
  | branchElse (opening : IfTag) (yes : List Item) (middle : WordTag "else") (no : List Item)
      (closing : WordTag "endif")
  | forEach (opening : ForTag) (body : List Item) (closing : WordTag "endfor")

/-- A body with at most one `inherits` in it. -/
inductive Document where
  | plain (body : List Item)
  | derived (before : List Item) (tag : InheritsTag) (after : List Item)

mutual

def Item.pieces : Item → List Piece
  | .text content => [.text content]
  | .comment inner => [.tag .comment inner]
  | .emit tag => [.tag .expression tag.inner]
  | .branch opening yes closing =>
      .tag .directive opening.inner :: bodyPieces yes ++ [.tag .directive closing.inner]
  | .branchElse opening yes middle no closing =>
      .tag .directive opening.inner :: bodyPieces yes ++ .tag .directive middle.inner
        :: bodyPieces no ++ [.tag .directive closing.inner]
  | .forEach opening body closing =>
      .tag .directive opening.inner :: bodyPieces body ++ [.tag .directive closing.inner]

def bodyPieces : List Item → List Piece
  | [] => []
  | item :: rest => item.pieces ++ bodyPieces rest

end

/-- A node in front of others. Text in front of text becomes one node. -/
def consNode : Node → List Node → List Node
  | .text a, .text b :: rest => .text (a ++ b) :: rest
  | node, rest => node :: rest

/-- The nodes with neighbouring texts joined. -/
def joinTexts (nodes : List Node) : List Node :=
  nodes.foldr consNode []

mutual

/-- The node of an item. A comment has none. -/
def Item.nodes : Item → List Node
  | .text content => [.text (String.ofList content)]
  | .comment _ => []
  | .emit tag => [.emit tag.path]
  | .branch opening yes _ =>
      [.branch opening.path opening.negate (joinTexts (itemNodes yes)) none]
  | .branchElse opening yes _ no _ =>
      [.branch opening.path opening.negate (joinTexts (itemNodes yes))
        (some (joinTexts (itemNodes no)))]
  | .forEach opening body _ =>
      [.forEach opening.binding opening.source (joinTexts (itemNodes body))]

def itemNodes : List Item → List Node
  | [] => []
  | item :: rest => item.nodes ++ itemNodes rest

end

namespace Document

def pieces : Document → List Piece
  | .plain body => bodyPieces body
  | .derived before tag after => bodyPieces before ++ .tag .directive tag.inner :: bodyPieces after

/-- The items of a document without its `inherits`. -/
def items : Document → List Item
  | .plain body => body
  | .derived before _ after => before ++ after

def inherits : Document → Option String
  | .plain _ => none
  | .derived _ tag _ => some tag.name

/-- The template that a document derives. -/
def template (d : Document) : Template where
  nodes := joinTexts (itemNodes d.items)
  inherits := d.inherits

end Document

theorem bodyPieces_append (xs ys : List Item) :
    bodyPieces (xs ++ ys) = bodyPieces xs ++ bodyPieces ys := by
  induction xs with
  | nil => rfl
  | cons x xs ih => rw [List.cons_append, bodyPieces, bodyPieces, ih, List.append_assoc]

theorem itemNodes_append (xs ys : List Item) :
    itemNodes (xs ++ ys) = itemNodes xs ++ itemNodes ys := by
  induction xs with
  | nil => rfl
  | cons x xs ih => rw [List.cons_append, itemNodes, itemNodes, ih, List.append_assoc]

/-! ## Joined texts -/

theorem consNode_appendNode (first : Node) (nodes : List Node) (last : Node) :
    consNode first (appendNode nodes last) = appendNode (consNode first nodes) last := by
  match first, nodes, last with
  | .text a, [], .text b => rfl
  | .text a, [], .emit _ | .text a, [], .branch .. | .text a, [], .forEach .. => rfl
  | .text a, [.text b], .text c => simp [consNode, appendNode, String.append_assoc]
  | .text a, [.text b], .emit _ | .text a, [.text b], .branch ..
  | .text a, [.text b], .forEach .. => rfl
  | .text a, .text b :: n :: ns, last => simp [consNode, appendNode]
  | .text a, .emit _ :: ns, last | .text a, .branch .. :: ns, last
  | .text a, .forEach .. :: ns, last => simp [consNode, appendNode]
  | .emit _, ns, last | .branch .., ns, last | .forEach .., ns, last =>
      simp [consNode, appendNode]

/-- Joining from the left, node by node, gives the same. -/
theorem joinTexts_append (nodes more : List Node) :
    joinTexts (nodes ++ more) = more.foldl appendNode (joinTexts nodes) := by
  have hlast (nodes : List Node) (last : Node) :
      joinTexts (nodes ++ [last]) = appendNode (joinTexts nodes) last := by
    induction nodes with
    | nil => cases last <;> rfl
    | cons n ns ih =>
        show consNode n (joinTexts (ns ++ [last])) = appendNode (consNode n (joinTexts ns)) last
        rw [ih, consNode_appendNode]
  induction more generalizing nodes with
  | nil => rw [List.append_nil, List.foldl_nil]
  | cons m more ih =>
      rw [List.foldl_cons, ← hlast, ← ih, List.append_assoc, List.singleton_append]

/-! ## Readings -/

/-- A block whose closing tag has not come yet, with the items it has so far. -/
inductive OpenBlock where
  | first (opening : IfTag) (items : List Item)
  | second (opening : IfTag) (yes : List Item) (middle : WordTag "else") (items : List Item)
  | loop (opening : ForTag) (items : List Item)

namespace OpenBlock

def pieces : OpenBlock → List Piece
  | .first opening items => .tag .directive opening.inner :: bodyPieces items
  | .second opening yes middle items =>
      .tag .directive opening.inner :: bodyPieces yes ++ .tag .directive middle.inner
        :: bodyPieces items
  | .loop opening items => .tag .directive opening.inner :: bodyPieces items

def frame : OpenBlock → Frame
  | .first opening items =>
      .branch opening.path opening.negate (joinTexts (itemNodes items)) none {}
  | .second opening yes _ items =>
      .branch opening.path opening.negate (joinTexts (itemNodes yes))
        (some (joinTexts (itemNodes items))) {}
  | .loop opening items =>
      .forEach opening.binding opening.source (joinTexts (itemNodes items)) {}

def append (more : List Item) : OpenBlock → OpenBlock
  | .first opening items => .first opening (items ++ more)
  | .second opening yes middle items => .second opening yes middle (items ++ more)
  | .loop opening items => .loop opening (items ++ more)

theorem pieces_append (block : OpenBlock) (more : List Item) :
    (block.append more).pieces = block.pieces ++ bodyPieces more := by
  cases block <;> simp [append, pieces, bodyPieces_append]

theorem frame_append (block : OpenBlock) (item : Item) :
    (block.append [item]).frame = item.nodes.foldl (fun f node => f.push node) block.frame := by
  have hnodes (items : List Item) : joinTexts (itemNodes (items ++ [item]))
      = item.nodes.foldl appendNode (joinTexts (itemNodes items)) := by
    rw [itemNodes_append, itemNodes, itemNodes, List.append_nil, joinTexts_append]
  cases block with
  | first opening items =>
      rw [append, frame, hnodes]
      cases item <;> rfl
  | second opening yes middle items =>
      rw [append, frame, hnodes]
      cases item <;> rfl
  | loop opening items =>
      rw [append, frame, hnodes]
      cases item <;> rfl

end OpenBlock

/-- A document that is not finished, with its open blocks, the innermost first. -/
structure Reading where
  document : Document := .plain []
  blocks : List OpenBlock := []

def Document.append (more : List Item) : Document → Document
  | .plain body => .plain (body ++ more)
  | .derived before tag after => .derived before tag (after ++ more)

namespace Reading

/-- The pieces read so far. -/
def pieces (r : Reading) : List Piece :=
  r.document.pieces ++ r.blocks.reverse.flatMap OpenBlock.pieces

/-- The state of the machine after these pieces. -/
def state (r : Reading) : State where
  nodes := r.document.template.nodes
  stack := r.blocks.map OpenBlock.frame
  inherits := r.document.inherits

/-- Adds items to the innermost open block. -/
def append (r : Reading) (more : List Item) : Reading :=
  match r.blocks with
  | [] => { r with document := r.document.append more }
  | block :: rest => { r with blocks := block.append more :: rest }

theorem append_nil (r : Reading) : r.append [] = r := by
  obtain ⟨document, blocks⟩ := r
  cases blocks with
  | nil => cases document <;> simp [append, Document.append]
  | cons block rest => cases block <;> simp [append, OpenBlock.append]

theorem append_append (r : Reading) (xs ys : List Item) :
    (r.append xs).append ys = r.append (xs ++ ys) := by
  obtain ⟨document, blocks⟩ := r
  cases blocks with
  | nil => cases document <;> simp [append, Document.append]
  | cons block rest => cases block <;> simp [append, OpenBlock.append]

theorem pieces_append (r : Reading) (more : List Item) :
    (r.append more).pieces = r.pieces ++ bodyPieces more := by
  obtain ⟨document, blocks⟩ := r
  cases blocks with
  | nil =>
      cases document <;>
        simp [append, Document.append, pieces, Document.pieces, bodyPieces_append]
  | cons block rest => simp [append, pieces, OpenBlock.pieces_append]

theorem state_append (r : Reading) (item : Item) :
    (r.append [item]).state = item.nodes.foldl State.push r.state := by
  obtain ⟨document, blocks⟩ := r
  cases blocks with
  | nil =>
      have hitems : (document.append [item]).items = document.items ++ [item] := by
        cases document <;> simp [Document.append, Document.items]
      have hinherits : (document.append [item]).inherits = document.inherits := by
        cases document <;> rfl
      simp only [append, state, Document.template, hitems, hinherits, itemNodes_append, itemNodes,
        List.append_nil, joinTexts_append]
      cases item <;> rfl
  | cons block rest =>
      simp only [append, state, List.map_cons, OpenBlock.frame_append]
      cases item <;> rfl

end Reading

/-- How a reading takes one more piece. -/
inductive Move : Reading → Piece → Reading → Prop where
  | text (r : Reading) (content : List Char) :
      Move r (.text content) (r.append [.text content])
  | comment (r : Reading) (inner : List Char) :
      Move r (.tag .comment inner) (r.append [.comment inner])
  | emit (r : Reading) (tag : EmitTag) :
      Move r (.tag .expression tag.inner) (r.append [.emit tag])
  | openIf (r : Reading) (opening : IfTag) :
      Move r (.tag .directive opening.inner) { r with blocks := .first opening [] :: r.blocks }
  | elseMark (d : Document) (rest : List OpenBlock) (opening : IfTag) (yes : List Item)
      (middle : WordTag "else") :
      Move ⟨d, .first opening yes :: rest⟩ (.tag .directive middle.inner)
        ⟨d, .second opening yes middle [] :: rest⟩
  | closeIf (d : Document) (rest : List OpenBlock) (opening : IfTag) (yes : List Item)
      (closing : WordTag "endif") :
      Move ⟨d, .first opening yes :: rest⟩ (.tag .directive closing.inner)
        (Reading.append ⟨d, rest⟩ [.branch opening yes closing])
  | closeElse (d : Document) (rest : List OpenBlock) (opening : IfTag) (yes : List Item)
      (middle : WordTag "else") (no : List Item) (closing : WordTag "endif") :
      Move ⟨d, .second opening yes middle no :: rest⟩ (.tag .directive closing.inner)
        (Reading.append ⟨d, rest⟩ [.branchElse opening yes middle no closing])
  | openFor (r : Reading) (opening : ForTag) :
      Move r (.tag .directive opening.inner) { r with blocks := .loop opening [] :: r.blocks }
  | closeFor (d : Document) (rest : List OpenBlock) (opening : ForTag) (body : List Item)
      (closing : WordTag "endfor") :
      Move ⟨d, .loop opening body :: rest⟩ (.tag .directive closing.inner)
        (Reading.append ⟨d, rest⟩ [.forEach opening body closing])
  | inherits (body : List Item) (tag : InheritsTag) :
      Move ⟨.plain body, []⟩ (.tag .directive tag.inner) ⟨.derived body tag [], []⟩

theorem Move.pieces {r r' : Reading} {piece : Piece} (h : Move r piece r') :
    r'.pieces = r.pieces ++ [piece] := by
  cases h with
  | text r content | comment r inner | emit r tag =>
      rw [Reading.pieces_append]
      rfl
  | closeIf | closeElse | closeFor =>
      rw [Reading.pieces_append]
      simp [Reading.pieces, OpenBlock.pieces, bodyPieces, Item.pieces]
  | openIf | elseMark | openFor | inherits =>
      simp [Reading.pieces, OpenBlock.pieces, bodyPieces, Document.pieces]

/-! ## Moves are steps -/

theorem step_directive {s : State} {inner : List Char} {d : Directive}
    (h : Directive.ofWords (wordsOf inner) = d) :
    s.step (Piece.bare (.tag .directive inner)) = (s.directive {} d).mapError (·, {}) := by
  rw [← h]
  rfl

theorem Move.step {r r' : Reading} {piece : Piece} (h : Move r piece r') :
    r.state.step piece.bare = .ok r'.state := by
  cases h with
  | text r content => exact congrArg Except.ok (r.state_append (.text content)).symm
  | comment r inner => exact congrArg Except.ok (r.state_append (.comment inner)).symm
  | emit r tag =>
      have hpath := Text.dotted?_eq_some_iff.mpr ⟨tag.isPath, tag.spelled⟩
      rw [Reading.state_append]
      simp only [Piece.bare, Piece.segment, Segment.unplaced, State.step, State.expression, hpath]
      rfl
  | openIf r opening =>
      have hpath := Text.dotted?_eq_some_iff.mpr ⟨opening.isPath, rfl⟩
      have hwords : Directive.ofWords (wordsOf opening.inner)
          = .openIf opening.negate (joinDots opening.path) := by
        rw [opening.spelled]
        cases opening.negate <;> simp [ifWords, Directive.ofWords]
      rw [step_directive hwords, State.directive, hpath]
      rfl
  | elseMark d rest opening yes middle =>
      rw [step_directive (d := .elseMark) (by rw [middle.spelled]; rfl)]
      rfl
  | closeIf d rest opening yes closing =>
      rw [step_directive (d := .closeIf) (by rw [closing.spelled]; rfl), Reading.state_append]
      rfl
  | closeElse d rest opening yes middle no closing =>
      rw [step_directive (d := .closeIf) (by rw [closing.spelled]; rfl), Reading.state_append]
      rfl
  | openFor r opening =>
      have hpath := Text.dotted?_eq_some_iff.mpr ⟨opening.isPath, rfl⟩
      rw [step_directive (d := .openFor opening.binding (joinDots opening.source))
        (by rw [opening.spelled]; rfl), State.directive, hpath]
      simp only [opening.isIdent]
      rfl
  | closeFor d rest opening body closing =>
      rw [step_directive (d := .closeFor) (by rw [closing.spelled]; rfl), Reading.state_append]
      rfl
  | inherits body tag =>
      have hname : (Text.dotted? tag.name.toList).isNone = false := by
        rw [Option.isNone_eq_false_iff]
        exact Text.dotted?_isSome_iff.mpr tag.isDotted
      have hitems : (Document.derived body tag []).items = body := List.append_nil body
      rw [step_directive (d := .inherits tag.name) (by rw [tag.spelled]; rfl), State.directive,
        hname, Reading.state, Reading.state, Document.template, Document.template, hitems]
      rfl

/-! ## Steps are moves -/

/-- The words that a directive is told by, or the first of them if it is not understood. -/
def Directive.words : Directive → List String
  | .openIf negate path => ifWords path negate
  | .elseMark => ["else"]
  | .closeIf => ["endif"]
  | .openFor binding path => ["for", binding, "in", path]
  | .closeFor => ["endfor"]
  | .inherits name => ["inherits", name]
  | .malformed word | .unknown word => [word]

def Directive.Understood : Directive → Prop
  | .malformed _ | .unknown _ => False
  | _ => True

theorem eq_words_of_ofWords {words : List String} {d : Directive}
    (h : Directive.ofWords words = d) (hd : d.Understood) : words = d.words := by
  subst h
  fun_cases Directive.ofWords words with
  | case1 path | case2 path | case3 | case4 | case5 binding path | case6 | case7 name => rfl
  | case8 word rest => simp_all [Directive.ofWords, Directive.Understood]
  | case9 word rest => simp_all [Directive.ofWords, Directive.Understood]
  | case10 => exact hd.elim

theorem exists_move_directive {r : Reading} {inner : List Char} {s : State} {d : Directive}
    (hwords : Directive.ofWords (wordsOf inner) = d) (h : r.state.directive {} d = .ok s) :
    ∃ r', Move r (.tag .directive inner) r' := by
  have hspelled := eq_words_of_ofWords hwords
  obtain ⟨document, blocks⟩ := r
  cases d with
  | openIf negate path =>
      simp only [State.directive] at h
      split at h
      · next cond hpath =>
          obtain ⟨hisPath, hjoin⟩ := Text.dotted?_eq_some_iff.mp hpath
          obtain rfl := String.toList_inj.mp hjoin
          exact ⟨_, .openIf _ ⟨inner, cond, negate, hisPath, hspelled trivial⟩⟩
      · cases h
  | elseMark =>
      cases blocks with
      | nil => cases h
      | cons block rest =>
          cases block with
          | first opening yes => exact ⟨_, .elseMark _ _ _ _ ⟨inner, hspelled trivial⟩⟩
          | second opening yes middle items => cases h
          | loop opening items => cases h
  | closeIf =>
      cases blocks with
      | nil => cases h
      | cons block rest =>
          cases block with
          | first opening yes => exact ⟨_, .closeIf _ _ _ _ ⟨inner, hspelled trivial⟩⟩
          | second opening yes middle no =>
              exact ⟨_, .closeElse _ _ _ _ _ _ ⟨inner, hspelled trivial⟩⟩
          | loop opening items => cases h
  | openFor binding path =>
      simp only [State.directive] at h
      split at h
      · cases h
      · next source hpath =>
          split at h
          · next hident =>
              obtain ⟨hisPath, hjoin⟩ := Text.dotted?_eq_some_iff.mp hpath
              obtain rfl := String.toList_inj.mp hjoin
              exact ⟨_, .openFor _ ⟨inner, binding, source, hident, hisPath, hspelled trivial⟩⟩
          · cases h
  | closeFor =>
      cases blocks with
      | nil => cases h
      | cons block rest =>
          cases block with
          | first opening yes => cases h
          | second opening yes middle items => cases h
          | loop opening body => exact ⟨_, .closeFor _ _ _ _ ⟨inner, hspelled trivial⟩⟩
  | inherits name =>
      cases blocks with
      | cons block rest => cases h
      | nil =>
          cases document with
          | derived before tag after => cases h
          | plain body =>
              simp only [State.directive] at h
              split at h
              · cases h
              · split at h
                · cases h
                · split at h
                  · cases h
                  · next hname =>
                      have hdotted := Text.dotted?_isSome_iff.mp
                        (by simpa [Option.isSome_iff_ne_none] using hname)
                      exact ⟨_, .inherits body ⟨inner, name, hdotted, hspelled trivial⟩⟩
  | malformed keyword => cases h
  | unknown name => cases h

/-- A step that succeeds is a move of the reading. -/
theorem exists_move {r : Reading} {piece : Piece} {s : State}
    (h : r.state.step piece.bare = .ok s) :
    ∃ r', Move r piece r' ∧ r'.state = s := by
  suffices ∃ r', Move r piece r' by
    obtain ⟨r', hmove⟩ := this
    exact ⟨r', hmove, Except.ok.inj (hmove.step.symm.trans h)⟩
  cases piece with
  | text content => exact ⟨_, .text r content⟩
  | tag kind inner =>
      cases kind with
      | expression =>
          simp only [Piece.bare, Piece.segment, Segment.unplaced, State.step, State.expression] at h
          split at h
          · next path hpath =>
              obtain ⟨hpath, hspelled⟩ := Text.dotted?_eq_some_iff.mp hpath
              exact ⟨_, .emit r ⟨inner, path, hpath, hspelled⟩⟩
          · cases h
      | directive =>
          rw [step_directive rfl] at h
          cases hdirective : r.state.directive {} (.ofWords (wordsOf inner)) with
          | ok next => exact exists_move_directive rfl hdirective
          | error problem =>
              rw [hdirective] at h
              cases h
      | comment => exact ⟨_, .comment r inner⟩
  | unclosed kind rest => cases h

/-! ## Runs -/

theorem run_move {r r' : Reading} {piece : Piece} (h : Move r piece r') (rest : List Segment) :
    r.state.run (piece.bare :: rest) = r'.state.run rest := by
  rw [State.run, h.step]

mutual

/-- The machine reads the pieces of an item as that item, whatever is open around it. -/
theorem run_item (r : Reading) (item : Item) (rest : List Segment) :
    r.state.run (item.pieces.map Piece.bare ++ rest) = (r.append [item]).state.run rest := by
  match item with
  | .text content => exact run_move (.text r content) rest
  | .comment inner => exact run_move (.comment r inner) rest
  | .emit tag => exact run_move (.emit r tag) rest
  | .branch opening yes closing =>
      simp only [Item.pieces, List.map_cons, List.map_append, List.cons_append, List.append_assoc,
        List.map_nil, List.nil_append]
      rw [run_move (.openIf r opening), run_body _ yes]
      exact run_move (.closeIf r.document r.blocks opening yes closing) rest
  | .branchElse opening yes middle no closing =>
      simp only [Item.pieces, List.map_cons, List.map_append, List.cons_append, List.append_assoc,
        List.map_nil, List.nil_append]
      rw [run_move (.openIf r opening), run_body _ yes]
      refine (run_move (.elseMark r.document r.blocks opening yes middle) _).trans ?_
      rw [run_body _ no]
      exact run_move (.closeElse r.document r.blocks opening yes middle no closing) rest
  | .forEach opening body closing =>
      simp only [Item.pieces, List.map_cons, List.map_append, List.cons_append, List.append_assoc,
        List.map_nil, List.nil_append]
      rw [run_move (.openFor r opening), run_body _ body]
      exact run_move (.closeFor r.document r.blocks opening body closing) rest

theorem run_body (r : Reading) (body : List Item) (rest : List Segment) :
    r.state.run ((bodyPieces body).map Piece.bare ++ rest) = (r.append body).state.run rest := by
  match body with
  | [] => rw [Reading.append_nil, bodyPieces, List.map_nil, List.nil_append]
  | item :: items =>
      rw [bodyPieces, List.map_append, List.append_assoc, run_item r item, run_body _ items,
        Reading.append_append, List.singleton_append]

end

theorem Document.run (d : Document) :
    State.run {} (d.pieces.map Piece.bare) = (Reading.state { document := d }, []) := by
  have hplain (body : List Item) (rest : List Segment) :
      State.run {} ((bodyPieces body).map Piece.bare ++ rest)
        = State.run (Reading.state { document := .plain body }) rest :=
    run_body {} body rest
  cases d with
  | plain body =>
      rw [Document.pieces, ← List.append_nil (List.map _ _), hplain, State.run]
  | derived before tag after =>
      rw [Document.pieces, List.map_append, hplain, List.map_cons,
        run_move (.inherits before tag), ← List.append_nil (List.map _ _), run_body, State.run]
      rfl

/-- A run without problems is a reading of the pieces. -/
theorem exists_reading {r : Reading} {pieces : List Piece} {s : State}
    (h : r.state.run (pieces.map Piece.bare) = (s, [])) :
    ∃ r' : Reading, r'.state = s ∧ r'.pieces = r.pieces ++ pieces := by
  induction pieces generalizing r with
  | nil =>
      cases h
      exact ⟨r, rfl, (List.append_nil _).symm⟩
  | cons piece rest ih =>
      rw [List.map_cons, State.run] at h
      split at h
      · next next hnext =>
          obtain ⟨r', hmove, rfl⟩ := exists_move hnext
          obtain ⟨r'', hstate, hpieces⟩ := ih h
          refine ⟨r'', hstate, ?_⟩
          rw [hpieces, hmove.pieces, List.append_assoc, List.singleton_append]
      · cases h

theorem exists_document {pieces : List Piece} {s : State}
    (h : State.run {} (pieces.map Piece.bare) = (s, [])) (hstack : s.stack = []) :
    ∃ d : Document, d.pieces = pieces := by
  obtain ⟨⟨d, blocks⟩, rfl, hpieces⟩ := exists_reading (r := {}) h
  obtain rfl : blocks = [] := List.map_eq_nil_iff.mp hstack
  refine ⟨d, ?_⟩
  simpa [Reading.pieces, Document.pieces, bodyPieces] using hpieces

/-- A template is read without a problem if and only if its pieces are those of a document of
the block grammar, and then it is the template that the document derives. -/
theorem parse_accepts_documents (source : String) :
    ((parse source).2 = [] ↔ ∃ d : Document, Cut source.toList d.pieces) ∧
      ∀ d : Document, Cut source.toList d.pieces → parse source = (d.template, []) := by
  have hdocument (d : Document) (hcut : Cut source.toList d.pieces) :
      parse source = (d.template, []) := by
    have htemplate := hcut.parse_template
    have hproblems := hcut.parse_problems
    rw [d.run] at htemplate hproblems
    exact Prod.ext htemplate (List.map_eq_nil_iff.mp hproblems)
  refine ⟨⟨fun h => ?_, fun ⟨d, hcut⟩ => ?_⟩, hdocument⟩
  · obtain ⟨pieces, hcut⟩ := exists_cut source.toList
    have hproblems := hcut.parse_problems
    rw [h, List.map_nil, eq_comm, List.append_eq_nil_iff, List.map_eq_nil_iff,
      List.map_eq_nil_iff] at hproblems
    obtain ⟨d, rfl⟩ := exists_document (Prod.ext rfl hproblems.1) hproblems.2
    exact ⟨d, hcut⟩
  · rw [hdocument d hcut]

end ViewPress.Template
