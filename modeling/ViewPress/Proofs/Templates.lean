import ViewPress.Proofs.Printing
import ViewPress.Template.Unit

/-!
# Templates have names of the language

A template is refused where a name in it is not one of the language, and refusing a
tag leaves the machine as it was. So every state of the machine holds names only:
its nodes, the blocks that are still open, and the base that the template names.
The class of a template is therefore one that can be printed and read back.
-/

namespace ViewPress.Template

open Source (WellNamedStatements)
open Text (IsDotted IsPath)

/-- The names in a body are names of the language. -/
def WellNamedNodes (nodes : List Node) : Prop :=
  WellNamedStatements (statements nodes)

/-- The names in an open block are names of the language. -/
def Frame.WellNamed : Frame → Prop
  | .branch cond _ yes no _ => IsPath cond ∧ WellNamedNodes yes ∧ ∀ block ∈ no, WellNamedNodes block
  | .forEach binding source body _ =>
      Text.isIdent binding.toList = true ∧ IsPath source ∧ WellNamedNodes body

/-- The names in a state of the machine are names of the language. -/
structure State.WellNamed (s : State) : Prop where
  nodes : WellNamedNodes s.nodes
  stack : ∀ frame ∈ s.stack, frame.WellNamed
  inherits : ∀ name ∈ s.inherits, IsDotted name

theorem wellNamedNodes_nil : WellNamedNodes [] := by
  simp only [WellNamedNodes, statements, WellNamedStatements]

theorem wellNamedNodes_cons {node : Node} {nodes : List Node} :
    WellNamedNodes (node :: nodes) ↔ node.statement.WellNamed ∧ WellNamedNodes nodes := by
  simp only [WellNamedNodes, statements, WellNamedStatements]

theorem wellNamedNodes_appendNode {nodes : List Node} {node : Node}
    (hnodes : WellNamedNodes nodes) (hnode : node.statement.WellNamed) :
    WellNamedNodes (appendNode nodes node) := by
  fun_induction appendNode nodes node with
  | case1 node => exact wellNamedNodes_cons.mpr ⟨hnode, wellNamedNodes_nil⟩
  | case2 a b =>
      refine wellNamedNodes_cons.mpr ⟨?_, wellNamedNodes_nil⟩
      simp only [Node.statement, Source.Statement.WellNamed]
  | case3 n ns node _ ih =>
      obtain ⟨hn, hns⟩ := wellNamedNodes_cons.mp hnodes
      exact wellNamedNodes_cons.mpr ⟨hn, ih hns hnode⟩

theorem Frame.WellNamed.push {frame : Frame} {node : Node} (hframe : frame.WellNamed)
    (hnode : node.statement.WellNamed) : (frame.push node).WellNamed := by
  cases frame with
  | branch cond negate yes no opened =>
      obtain ⟨hcond, hyes, hno⟩ := hframe
      cases no with
      | none => exact ⟨hcond, wellNamedNodes_appendNode hyes hnode, hno⟩
      | some block =>
          refine ⟨hcond, hyes, ?_⟩
          rintro _ ⟨⟩
          exact wellNamedNodes_appendNode (hno block rfl) hnode
  | forEach binding source body opened =>
      obtain ⟨hbinding, hsource, hbody⟩ := hframe
      exact ⟨hbinding, hsource, wellNamedNodes_appendNode hbody hnode⟩

/-- What a block holds can stand in the body around it. -/
theorem wellNamed_branch {cond : List String} {negate : Bool} {yes : List Node}
    {no : Option (List Node)} {opened : Span}
    (h : (Frame.branch cond negate yes no opened).WellNamed) :
    (Node.branch cond negate yes no).statement.WellNamed := by
  obtain ⟨hcond, hyes, hno⟩ := h
  cases no with
  | none =>
      simp only [Node.statement, Source.Statement.WellNamed]
      exact ⟨hcond, hyes⟩
  | some block =>
      simp only [Node.statement, Source.Statement.WellNamed]
      exact ⟨hcond, hyes, hno block rfl⟩

theorem wellNamed_forEach {binding : String} {source : List String} {body : List Node}
    {opened : Span} (h : (Frame.forEach binding source body opened).WellNamed) :
    (Node.forEach binding source body).statement.WellNamed := by
  simp only [Node.statement, Source.Statement.WellNamed]
  exact h

namespace State.WellNamed

variable {s s' : State}

theorem initial : State.WellNamed {} :=
  ⟨wellNamedNodes_nil, by simp, by simp⟩

theorem push {node : Node} (hs : s.WellNamed) (hnode : node.statement.WellNamed) :
    (s.push node).WellNamed := by
  rw [State.push]
  split
  · exact ⟨wellNamedNodes_appendNode hs.nodes hnode, hs.stack, hs.inherits⟩
  · next frame rest hstack =>
      have hframe := hs.stack frame (hstack ▸ List.mem_cons_self)
      refine ⟨hs.nodes, ?_, hs.inherits⟩
      rintro f (_ | ⟨_, hf⟩)
      · exact hframe.push hnode
      · exact hs.stack f (hstack ▸ List.mem_cons_of_mem _ hf)

/-- Opening a block keeps the names in order if the block's own are. -/
theorem enter {frame : Frame} (hs : s.WellNamed) (hframe : frame.WellNamed) :
    State.WellNamed { s with stack := frame :: s.stack } :=
  ⟨hs.nodes, List.forall_mem_cons.mpr ⟨hframe, hs.stack⟩, hs.inherits⟩

theorem leave {frame : Frame} {rest : List Frame} (hs : s.WellNamed)
    (hstack : s.stack = frame :: rest) :
    frame.WellNamed ∧ State.WellNamed { s with stack := rest } := by
  obtain ⟨hframe, hrest⟩ := List.forall_mem_cons.mp (hstack ▸ hs.stack)
  exact ⟨hframe, hs.nodes, hrest, hs.inherits⟩

theorem expression {inner : List Char} (hs : s.WellNamed) (h : s.expression inner = .ok s') :
    s'.WellNamed := by
  simp only [State.expression] at h
  split at h
  · next path hpath =>
      cases h
      refine hs.push ?_
      simp only [Node.statement, Source.Statement.WellNamed]
      exact (Text.isPath_of_dotted? hpath).1
  · cases h

theorem directive {span : Span} {d : Directive} (hs : s.WellNamed)
    (h : s.directive span d = .ok s') : s'.WellNamed := by
  cases d with
  | openIf negate path =>
      simp only [State.directive] at h
      split at h
      · next cond hcond =>
          cases h
          exact hs.enter ⟨(Text.isPath_of_dotted? hcond).1, wellNamedNodes_nil, by simp⟩
      · cases h
  | elseMark =>
      simp only [State.directive] at h
      split at h
      · next cond negate yes opened rest hstack =>
          cases h
          obtain ⟨⟨hcond, hyes, -⟩, hrest⟩ := hs.leave hstack
          refine hrest.enter ⟨hcond, hyes, ?_⟩
          rintro _ ⟨⟩
          exact wellNamedNodes_nil
      · cases h
      · cases h
  | closeIf =>
      simp only [State.directive] at h
      split at h
      · next hstack =>
          cases h
          obtain ⟨hframe, hrest⟩ := hs.leave hstack
          exact hrest.push (wellNamed_branch hframe)
      · cases h
  | openFor binding path =>
      simp only [State.directive] at h
      split at h
      · cases h
      · next source hsource =>
          split at h
          · next hbinding =>
              cases h
              exact hs.enter
                ⟨hbinding, (Text.isPath_of_dotted? hsource).1, wellNamedNodes_nil⟩
          · cases h
  | closeFor =>
      simp only [State.directive] at h
      split at h
      · next hstack =>
          cases h
          obtain ⟨hframe, hrest⟩ := hs.leave hstack
          exact hrest.push (wellNamed_forEach hframe)
      · cases h
  | inherits name =>
      simp only [State.directive] at h
      split at h
      · cases h
      · split at h
        · cases h
        · split at h
          · cases h
          · next hname =>
              cases h
              refine ⟨hs.nodes, hs.stack, ?_⟩
              rintro _ ⟨⟩
              exact Text.isDotted_of_dotted? (by simpa using hname)
  | malformed keyword => cases h
  | unknown name => cases h

/-- A segment that is taken keeps the names in order. -/
theorem step {segment : Segment} (hs : s.WellNamed) (h : s.step segment = .ok s') :
    s'.WellNamed := by
  cases segment with
  | text content =>
      cases h
      refine hs.push ?_
      simp only [Node.statement, Source.Statement.WellNamed]
  | tag kind inner span =>
      cases kind with
      | expression =>
          cases hinner : s.expression inner with
          | ok t =>
              rw [State.step, hinner] at h
              cases h
              exact hs.expression hinner
          | error problem =>
              rw [State.step, hinner] at h
              cases h
      | directive =>
          cases hinner : s.directive span (.ofInner inner) with
          | ok t =>
              rw [State.step, hinner] at h
              cases h
              exact hs.directive hinner
          | error problem =>
              rw [State.step, hinner] at h
              cases h
      | comment =>
          cases h
          exact hs
  | unclosed kind span => cases h

/-- So does a whole reading, whatever it refuses on the way. -/
theorem run (hs : s.WellNamed) (segments : List Segment) : (s.run segments).1.WellNamed := by
  induction segments generalizing s with
  | nil => exact hs
  | cons segment rest ih =>
      rw [State.run]
      split
      · next next hnext => exact ih (hs.step hnext)
      · exact ih hs

end State.WellNamed

/-- The class of a template, with problems or without, is well named. -/
theorem wellNamed_declaration (path source : String) :
    (declaration path (parse source).1).WellNamed := by
  have hfinal := State.WellNamed.initial.run (segments source)
  refine ⟨Text.isDotted_of_isIdent (isIdent_className path), ?_, by simp [declaration], ?_⟩
  · intro b hb
    rw [List.mem_singleton.mp hb]
    cases hinherits : (State.run {} (segments source)).1.inherits with
    | none =>
        have hpage : IsDotted Module.pageBase := Text.isDotted_of_isIdent (by decide)
        simpa [parse, hinherits] using hpage
    | some name => simpa [parse, hinherits] using hfinal.inherits name hinherits
  · rintro _ ⟨⟩
    exact hfinal.nodes

end ViewPress.Template
