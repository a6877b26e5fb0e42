import Mathlib.Data.List.Basic
import ViewPress.View.Render

/-!
# Values write no markup

A view writes fixed text and values. Its author answers for the fixed text; the values
come with the model, and whatever they hold must stay text. This file shows that it
does: an angle bracket or a quote in the output of a view stands there because a fixed
text that was executed has it. A value goes out with entities for the characters that
mean something in markup, and reading the entities back gives the text of the value.

What was executed is said by `Executes`, a relation between a body and the list of what
it writes, with one rule for each way an instruction can go. A body has exactly one such
list, and joining it gives what `render` answers.
-/

namespace ViewPress.View

/-! ## Executions -/

/-- Something that an execution writes: a fixed text, or a value of the model. -/
inductive Event where
  | wrote (text : String)
  | emitted (value : Json)

/-- The condition of a branch lets it go to its first body. -/
def Holds (scope : Scope) (cond : List String) (negate : Bool) : Prop :=
  (resolve scope cond).any isTrue ≠ negate

mutual

/-- The body, in this scope, writes these events. -/
inductive Executes : Scope → List Instr → List Event → Prop
  | done {scope} : Executes scope [] []
  | write {scope text rest es} (hrest : Executes scope rest es) :
      Executes scope (.write text :: rest) (.wrote text :: es)
  | emit {scope path value rest es} (hvalue : resolve scope path = some value)
      (hrest : Executes scope rest es) :
      Executes scope (.emit path :: rest) (.emitted value :: es)
  | emitNone {scope path rest es} (hvalue : resolve scope path = none)
      (hrest : Executes scope rest es) : Executes scope (.emit path :: rest) es
  | yes {scope cond negate yes no rest es es'} (hcond : Holds scope cond negate)
      (hyes : Executes scope yes es) (hrest : Executes scope rest es') :
      Executes scope (.branch cond negate yes no :: rest) (es ++ es')
  | no {scope cond negate yes no rest es es'} (hcond : ¬ Holds scope cond negate)
      (hno : Executes scope no es) (hrest : Executes scope rest es') :
      Executes scope (.branch cond negate yes no :: rest) (es ++ es')
  | loop {scope binding source value body rest es es'} (hvalue : resolve scope source = some value)
      (hitems : ExecutesEach scope binding body (items value) es)
      (hrest : Executes scope rest es') :
      Executes scope (.forEach binding source body :: rest) (es ++ es')
  | loopNone {scope binding source body rest es} (hvalue : resolve scope source = none)
      (hrest : Executes scope rest es) : Executes scope (.forEach binding source body :: rest) es

/-- The body of a loop writes these events for the items, one after another. -/
inductive ExecutesEach : Scope → String → List Instr → List Json → List Event → Prop
  | nil {scope binding body} : ExecutesEach scope binding body [] []
  | cons {scope binding body item items es es'}
      (hitem : Executes ((binding, item) :: scope) body es)
      (hitems : ExecutesEach scope binding body items es') :
      ExecutesEach scope binding body (item :: items) (es ++ es')

end

mutual

/-- Nothing is left open by the rules: a body has one list of events at most. -/
theorem Executes.unique {scope : Scope} {body : List Instr} {es es' : List Event}
    (h : Executes scope body es) (h' : Executes scope body es') : es = es' := by
  match h with
  | .done =>
      cases h'
      rfl
  | .write hrest =>
      cases h' with
      | write hrest' => rw [hrest.unique hrest']
  | .emit hvalue hrest =>
      cases h' with
      | emit hvalue' hrest' =>
          rw [Option.some.inj (hvalue.symm.trans hvalue'), hrest.unique hrest']
      | emitNone hvalue' _ => cases hvalue.symm.trans hvalue'
  | .emitNone hvalue hrest =>
      cases h' with
      | emit hvalue' _ => cases hvalue.symm.trans hvalue'
      | emitNone _ hrest' => exact hrest.unique hrest'
  | .yes hcond hyes hrest =>
      cases h' with
      | yes _ hyes' hrest' => rw [hyes.unique hyes', hrest.unique hrest']
      | no hcond' _ _ => exact absurd hcond hcond'
  | .no hcond hno hrest =>
      cases h' with
      | yes hcond' _ _ => exact absurd hcond' hcond
      | no _ hno' hrest' => rw [hno.unique hno', hrest.unique hrest']
  | .loop hvalue hitems hrest =>
      cases h' with
      | loop hvalue' hitems' hrest' =>
          obtain rfl := Option.some.inj (hvalue.symm.trans hvalue')
          rw [hitems.unique hitems', hrest.unique hrest']
      | loopNone hvalue' _ => cases hvalue.symm.trans hvalue'
  | .loopNone hvalue hrest =>
      cases h' with
      | loop hvalue' _ _ => cases hvalue.symm.trans hvalue'
      | loopNone _ hrest' => exact hrest.unique hrest'

theorem ExecutesEach.unique {scope : Scope} {binding : String} {body : List Instr}
    {values : List Json} {es es' : List Event} (h : ExecutesEach scope binding body values es)
    (h' : ExecutesEach scope binding body values es') : es = es' := by
  match h with
  | .nil =>
      cases h'
      rfl
  | .cons hitem hitems =>
      cases h' with
      | cons hitem' hitems' => rw [hitem.unique hitem', hitems.unique hitems']

end

theorem exists_executesEach {scope : Scope} {binding : String} {body : List Instr}
    (h : ∀ item, ∃ es, Executes ((binding, item) :: scope) body es) (values : List Json) :
    ∃ es, ExecutesEach scope binding body values es := by
  induction values with
  | nil => exact ⟨[], .nil⟩
  | cons item values ih =>
      obtain ⟨es, hes⟩ := h item
      obtain ⟨es', hes'⟩ := ih
      exact ⟨es ++ es', .cons hes hes'⟩

mutual

theorem exists_executes_cons (scope : Scope) (i : Instr) {rest : List Instr} {es : List Event}
    (hrest : Executes scope rest es) : ∃ es, Executes scope (i :: rest) es := by
  match i with
  | .write text => exact ⟨_, .write hrest⟩
  | .emit path =>
      cases hvalue : resolve scope path with
      | none => exact ⟨_, .emitNone hvalue hrest⟩
      | some value => exact ⟨_, .emit hvalue hrest⟩
  | .branch cond negate yes no =>
      by_cases hcond : Holds scope cond negate
      · obtain ⟨_, hyes⟩ := exists_executes scope yes
        exact ⟨_, .yes hcond hyes hrest⟩
      · obtain ⟨_, hno⟩ := exists_executes scope no
        exact ⟨_, .no hcond hno hrest⟩
  | .forEach binding source body =>
      cases hvalue : resolve scope source with
      | none => exact ⟨_, .loopNone hvalue hrest⟩
      | some value =>
          have hbody item := exists_executes ((binding, item) :: scope) body
          obtain ⟨_, hitems⟩ := exists_executesEach hbody (items value)
          exact ⟨_, .loop hvalue hitems hrest⟩

/-- Every body runs to its end. -/
theorem exists_executes (scope : Scope) (body : List Instr) : ∃ es, Executes scope body es := by
  match body with
  | [] => exact ⟨[], .done⟩
  | i :: rest =>
      obtain ⟨_, hrest⟩ := exists_executes scope rest
      exact exists_executes_cons scope i hrest

end

def Event.chunk : Event → Chunk
  | .wrote text => .fixed text
  | .emitted value => .value (display value)

mutual

/-- The chunks of a body are the events of its execution. -/
theorem Executes.runBody_eq {scope : Scope} {body : List Instr} {es : List Event}
    (h : Executes scope body es) : runBody scope body = es.map Event.chunk := by
  match h with
  | .done => rw [runBody, List.map_nil]
  | .write hrest =>
      rw [runBody, runInstr, hrest.runBody_eq]
      rfl
  | .emit hvalue hrest =>
      rw [runBody, runInstr, hvalue, hrest.runBody_eq]
      rfl
  | .emitNone hvalue hrest =>
      rw [runBody, runInstr, hvalue, hrest.runBody_eq]
      rfl
  | .yes hcond hyes hrest =>
      rw [runBody, runInstr, if_pos (bne_iff_ne.mpr hcond), hyes.runBody_eq, hrest.runBody_eq,
        List.map_append]
  | .no hcond hno hrest =>
      rw [runBody, runInstr, if_neg (mt bne_iff_ne.mp hcond), hno.runBody_eq, hrest.runBody_eq,
        List.map_append]
  | .loop hvalue hitems hrest =>
      rw [runBody, runInstr, hvalue, hrest.runBody_eq, List.map_append, ← hitems.flatMap_runBody]
  | .loopNone hvalue hrest =>
      rw [runBody, runInstr, hvalue, hrest.runBody_eq]
      rfl

theorem ExecutesEach.flatMap_runBody {scope : Scope} {binding : String} {body : List Instr}
    {values : List Json} {es : List Event} (h : ExecutesEach scope binding body values es) :
    (values.flatMap fun item => runBody ((binding, item) :: scope) body)
      = es.map Event.chunk := by
  match h with
  | .nil => rfl
  | .cons hitem hitems =>
      rw [List.flatMap_cons, hitem.runBody_eq, hitems.flatMap_runBody, List.map_append]

end

/-! ## Entities -/

/-- The entities that values are written with, and what they stand for. -/
def entities : List (List Char × Char) :=
  [("&lt;".toList, '<'), ("&gt;".toList, '>'), ("&amp;".toList, '&'), ("&quot;".toList, '"'),
    ("&#39;".toList, '\'')]

/-- Every ampersand of the text is the start of an entity. -/
def AmpersandsStartEntities (cs : List Char) : Prop :=
  ∀ rest, '&' :: rest <:+ cs → ∃ e ∈ entities, e.1 <+: '&' :: rest

/-- The text with every entity replaced by its character. -/
def expand (cs : List Char) : List Char :=
  match cs with
  | [] => []
  | c :: cs =>
      match entities.find? (·.1.isPrefixOf (c :: cs)) with
      | some (spelling, d) => d :: expand (cs.drop (spelling.length - 1))
      | none => c :: expand cs
termination_by cs.length

/-- A character with a meaning in markup is written as its entity, any other as it is. -/
theorem escapeChar_cases (c : Char) :
    (isSpecial c = true ∧ (escapeChar c, c) ∈ entities) ∨
      (isSpecial c = false ∧ escapeChar c = [c]) := by
  by_cases h : isSpecial c = true
  · simp only [isSpecial, List.mem_cons, List.not_mem_nil, or_false, decide_eq_true_eq] at h
    rcases h with rfl | rfl | rfl | rfl | rfl <;> exact .inl (by decide)
  · refine .inr ⟨by simpa using h, ?_⟩
    simp only [isSpecial, List.mem_cons, List.not_mem_nil, or_false, decide_eq_true_eq,
      not_or] at h
    obtain ⟨hlt, hgt, hamp, hquote, hapostrophe⟩ := h
    rw [escapeChar] <;> assumption

/-- Leaving a text alone that needs no change is escaping it. -/
theorem toList_escape (text : String) : (escape text).toList = text.toList.flatMap escapeChar := by
  rw [escape]
  split
  · exact String.toList_ofList
  · next hplain =>
      rw [List.any_eq_true, not_exists] at hplain
      have hkept : ∀ c ∈ text.toList, escapeChar c = [c] := by
        intro c hc
        rcases escapeChar_cases c with ⟨hspecial, -⟩ | ⟨-, hkept⟩
        · exact absurd ⟨hc, hspecial⟩ (hplain c)
        · exact hkept
      rw [List.flatMap_congr hkept, List.flatMap_singleton']

theorem expand_entity_append {e : List Char × Char} (he : e ∈ entities) (cs : List Char) :
    expand (e.1 ++ cs) = e.2 :: expand cs := by
  simp only [entities, List.mem_cons, List.not_mem_nil, or_false] at he
  rcases he with rfl | rfl | rfl | rfl | rfl <;> simp [expand, entities]

theorem expand_cons_of_ne {c : Char} (hc : c ≠ '&') (cs : List Char) :
    expand (c :: cs) = c :: expand cs := by
  have hnone : entities.find? (·.1.isPrefixOf (c :: cs)) = none := by simp [entities, hc.symm]
  rw [expand, hnone]

/-- Reading the entities back gives the text. -/
theorem expand_flatMap_escapeChar (cs : List Char) : expand (cs.flatMap escapeChar) = cs := by
  induction cs with
  | nil => rw [List.flatMap_nil, expand]
  | cons c cs ih =>
      rw [List.flatMap_cons]
      rcases escapeChar_cases c with ⟨-, hentity⟩ | ⟨hplain, hkept⟩
      · rw [expand_entity_append hentity, ih]
      · have hc : c ≠ '&' := by
          rintro rfl
          cases hplain
        rw [hkept, List.singleton_append, expand_cons_of_ne hc, ih]

theorem AmpersandsStartEntities.append {as bs : List Char} (has : '&' ∉ as)
    (h : AmpersandsStartEntities bs) : AmpersandsStartEntities (as ++ bs) := by
  induction as with
  | nil => exact h
  | cons a as ih =>
      rw [List.mem_cons, not_or] at has
      intro rest hrest
      rw [List.cons_append, List.suffix_cons_iff] at hrest
      rcases hrest with hrest | hrest
      · exact absurd (List.cons.inj hrest).1 has.1
      · exact ih has.2 rest hrest

theorem AmpersandsStartEntities.entity_append {e : List Char × Char} (he : e ∈ entities)
    {cs : List Char} (h : AmpersandsStartEntities cs) : AmpersandsStartEntities (e.1 ++ cs) := by
  have hshape : ∀ e ∈ entities, e.1 = '&' :: e.1.tail ∧ '&' ∉ e.1.tail := by decide
  obtain ⟨hhead, htail⟩ := hshape e he
  intro rest hrest
  rw [hhead, List.cons_append, List.suffix_cons_iff] at hrest
  rcases hrest with hrest | hrest
  · refine ⟨e, he, ?_⟩
    rw [hrest, ← List.cons_append, ← hhead]
    exact List.prefix_append e.1 cs
  · exact (h.append htail) rest hrest

theorem ampersandsStartEntities_flatMap (cs : List Char) :
    AmpersandsStartEntities (cs.flatMap escapeChar) := by
  induction cs with
  | nil =>
      intro rest hrest
      cases List.suffix_nil.mp hrest
  | cons c cs ih =>
      rw [List.flatMap_cons]
      rcases escapeChar_cases c with ⟨-, hentity⟩ | ⟨hplain, hkept⟩
      · exact ih.entity_append hentity
      · rw [hkept]
        refine ih.append ?_
        rw [List.mem_singleton]
        rintro rfl
        cases hplain

/-! ## Markup -/

/-- The characters that open or close a tag or one of its values. -/
def isMarkup (c : Char) : Bool :=
  c ∈ ['<', '>', '"', '\'']

theorem filter_isMarkup_flatMap_escapeChar (cs : List Char) :
    (cs.flatMap escapeChar).filter isMarkup = [] := by
  have hentities : ∀ e ∈ entities, e.1.filter isMarkup = [] := by decide
  induction cs with
  | nil => rfl
  | cons c cs ih =>
      rw [List.flatMap_cons, List.filter_append, ih, List.append_nil]
      rcases escapeChar_cases c with ⟨-, hentity⟩ | ⟨hplain, hkept⟩
      · exact hentities _ hentity
      · have hc : isMarkup c = false := by
          simp only [isSpecial, List.mem_cons, decide_eq_false_iff_not, not_or] at hplain
          simp [isMarkup, hplain]
        rw [hkept, List.filter_cons_of_neg (by rw [hc]; exact Bool.false_ne_true), List.filter_nil]

/-- The characters that an event adds to the output. -/
def Event.output : Event → List Char
  | .wrote text => text.toList
  | .emitted value => (escape (display value)).toList

/-- The characters that an event takes from a fixed text. -/
def Event.written : Event → List Char
  | .wrote text => text.toList
  | .emitted _ => []

theorem Event.toList_html_chunk (e : Event) : e.chunk.html.toList = e.output := by
  cases e <;> rfl

theorem Event.filter_isMarkup_output (e : Event) :
    e.output.filter isMarkup = e.written.filter isMarkup := by
  cases e with
  | wrote text => rfl
  | emitted value =>
      rw [output, toList_escape]
      exact filter_isMarkup_flatMap_escapeChar (display value).toList

theorem filter_isMarkup_flatMap_output (es : List Event) :
    (es.flatMap Event.output).filter isMarkup = (es.flatMap Event.written).filter isMarkup := by
  rw [List.filter_flatMap, List.filter_flatMap]
  exact List.flatMap_congr fun e _ => e.filter_isMarkup_output

/-- What is rendered is what the events of the execution add, in order. -/
theorem Executes.toList_render {body : List Instr} {model : Json} {es : List Event}
    (h : Executes [("model", model)] body es) :
    (render body model).toList = es.flatMap Event.output := by
  rw [render, h.runBody_eq, List.map_map, String.toList_join, List.flatMap_map]
  exact List.flatMap_congr fun e _ => e.toList_html_chunk

example : render [.write "<b>", .emit ["model"], .write "</b>"] (.str "<a href='x'>&amp;")
    = "<b>&lt;a href=&#39;x&#39;&gt;&amp;amp;</b>" := by
  decide +kernel

end ViewPress.View
