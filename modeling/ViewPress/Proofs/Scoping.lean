import ViewPress.Proofs.Pages
import ViewPress.Proofs.Stability
import ViewPress.View.Render

/-!
# Every look-up finds its variable

A render block is checked before it is lowered: every path in it must start at the
model or at the variable of a loop around it. This file shows what the check buys at
run time. Whatever the model is, every path that is looked up while a view renders
has a first name, and that name is bound in the scope of that moment. A value can
then be missing only because some member on the way to it is.

To speak about the look-ups of a run, the run is written once more with the look-up
as a parameter, in any monad: it has no other way to the value of a path. With
look-ups that are recorded it writes what `runBody` writes and hands out the record.

Two recursions meet here. The check goes over statements with a list of names, the
run over instructions with a list of values. `Scoped` is what they share: a property
of instructions and names, which lowering a checked block gives and which a scope
that binds the names keeps true to the innermost loop.
-/

namespace ViewPress

namespace View

/-! ## Runs with a record of their look-ups -/

section Run

variable {m : Type → Type} [Monad m]

/-- Runs `f` on each item and joins what comes of it. -/
def concatM {α β : Type} (f : α → m (List β)) : List α → m (List β)
  | [] => pure []
  | a :: as => do return (← f a) ++ (← concatM f as)

variable (look : Scope → List String → m (Option Json))

mutual

/-- Runs an instruction that can look up a path by `look` only. -/
def runInstrM (scope : Scope) : Instr → m (List Chunk)
  | .write text => return [.fixed text]
  | .emit path => do
      match ← look scope path with
      | some value => return [.value (display value)]
      | none => return []
  | .branch cond negate yes no => do
      if (← look scope cond).any isTrue != negate then runBodyM scope yes
      else runBodyM scope no
  | .forEach binding source body => do
      match ← look scope source with
      | some value => concatM (fun item => runBodyM ((binding, item) :: scope) body) (items value)
      | none => return []

def runBodyM (scope : Scope) : List Instr → m (List Chunk)
  | [] => return []
  | i :: rest => do return (← runInstrM scope i) ++ (← runBodyM scope rest)

end

end Run

/-- A path to look up, with the variables of that moment. -/
structure Lookup where
  scope : Scope
  path : List String

/-- A value with the look-ups made on the way to it, in order. -/
structure Logged (α : Type) where
  value : α
  lookups : List Lookup

instance : Monad Logged where
  pure a := { value := a, lookups := [] }
  bind x f := { value := (f x.value).value, lookups := x.lookups ++ (f x.value).lookups }

/-- Looks up a path and records that. -/
def logged (scope : Scope) (path : List String) : Logged (Option Json) where
  value := resolve scope path
  lookups := [{ scope, path }]

namespace Logged

variable {α β : Type}

theorem value_bind (x : Logged α) (f : α → Logged β) :
    (x >>= f).value = (f x.value).value := rfl

/-- All look-ups on the way have the property. -/
def All (P : Lookup → Prop) (x : Logged α) : Prop :=
  ∀ call ∈ x.lookups, P call

variable {P : Lookup → Prop}

theorem all_pure (a : α) : (pure a : Logged α).All P := by
  intro call hcall
  cases hcall

theorem All.bind {x : Logged α} {f : α → Logged β} (hx : x.All P) (hf : (f x.value).All P) :
    (x >>= f).All P := by
  intro call hcall
  rcases List.mem_append.mp hcall with hcall | hcall
  · exact hx call hcall
  · exact hf call hcall

theorem all_logged {scope : Scope} {path : List String} (h : P { scope, path }) :
    (logged scope path).All P := by
  intro call hcall
  rw [List.mem_singleton.mp hcall]
  exact h

theorem value_concatM (f : α → Logged (List β)) (as : List α) :
    (concatM f as).value = as.flatMap fun a => (f a).value := by
  induction as with
  | nil => rfl
  | cons a as ih =>
      rw [concatM, List.flatMap_cons, ← ih]
      rfl

theorem all_concatM {f : α → Logged (List β)} {as : List α} (h : ∀ a ∈ as, (f a).All P) :
    (concatM f as).All P := by
  induction as with
  | nil => exact all_pure []
  | cons a as ih =>
      obtain ⟨ha, has⟩ := List.forall_mem_cons.mp h
      exact ha.bind ((ih has).bind (all_pure _))

end Logged

mutual

theorem value_runInstrM (scope : Scope) (i : Instr) :
    (runInstrM logged scope i).value = runInstr scope i := by
  match i with
  | .write text =>
      rw [runInstrM, runInstr]
      rfl
  | .emit path =>
      rw [runInstrM, runInstr, Logged.value_bind, logged]
      cases resolve scope path with
      | none => rfl
      | some value => rfl
  | .branch cond negate yes no =>
      rw [runInstrM, runInstr, Logged.value_bind, logged]
      split
      · exact value_runBodyM scope yes
      · exact value_runBodyM scope no
  | .forEach binding source body =>
      rw [runInstrM, runInstr, Logged.value_bind, logged]
      cases resolve scope source with
      | none => rfl
      | some value =>
          refine (Logged.value_concatM _ _).trans (List.flatMap_congr fun item _ => ?_)
          exact value_runBodyM ((binding, item) :: scope) body

/-- Recording the look-ups of a run does not change what it writes. -/
theorem value_runBodyM (scope : Scope) (body : List Instr) :
    (runBodyM logged scope body).value = runBody scope body := by
  match body with
  | [] =>
      rw [runBodyM, runBody]
      rfl
  | i :: rest =>
      rw [runBodyM, runBody, ← value_runInstrM scope i, ← value_runBodyM scope rest]
      rfl

end

/-! ## Instructions in scope -/

/-- The path has a first name, and it is one of the names. -/
def StartsIn (names : List String) : List String → Prop
  | [] => False
  | root :: _ => root ∈ names

end View

open View (StartsIn)

mutual

/-- All paths of the instruction start at one of the names or at the variable of a loop
around them. -/
def Instr.Scoped (names : List String) : Instr → Prop
  | .write _ => True
  | .emit path => StartsIn names path
  | .branch cond _ yes no =>
      StartsIn names cond ∧ ScopedBody names yes ∧ ScopedBody names no
  | .forEach binding source body =>
      StartsIn names source ∧ ScopedBody (binding :: names) body

def ScopedBody (names : List String) : List Instr → Prop
  | [] => True
  | i :: rest => i.Scoped names ∧ ScopedBody names rest

end

theorem startsIn_of_unboundPath {names : List String} {p : Source.ValuePath}
    (hpath : Text.IsPath p.segments) (h : unboundPath names p = []) :
    StartsIn names p.segments := by
  rw [unboundPath, Source.ValuePath.root] at h
  cases hsegments : p.segments with
  | nil => exact absurd hsegments hpath.1
  | cons root members =>
      rw [hsegments] at h
      split at h
      · next hmem => exact List.contains_iff_mem.mp hmem
      · cases h

mutual

theorem Source.Statement.scoped_lower (names : List String) (s : Source.Statement)
    (hs : s.WellNamed) (h : unboundIn names s = []) : s.lower.Scoped names := by
  match s with
  | .write text =>
      rw [Source.Statement.lower, Instr.Scoped]
      trivial
  | .emit path =>
      rw [Source.Statement.WellNamed] at hs
      rw [unboundIn] at h
      rw [Source.Statement.lower, Instr.Scoped]
      exact startsIn_of_unboundPath hs h
  | .branch cond negate yes none =>
      rw [Source.Statement.WellNamed] at hs
      rw [unboundIn, List.append_eq_nil_iff] at h
      rw [Source.Statement.lower, Instr.Scoped, ScopedBody]
      exact ⟨startsIn_of_unboundPath hs.1 h.1, scoped_lowerAll names yes hs.2 h.2, trivial⟩
  | .branch cond negate yes (some no) =>
      rw [Source.Statement.WellNamed] at hs
      rw [unboundIn, List.append_eq_nil_iff, List.append_eq_nil_iff] at h
      rw [Source.Statement.lower, Instr.Scoped]
      exact ⟨startsIn_of_unboundPath hs.1 h.1.1, scoped_lowerAll names yes hs.2.1 h.1.2,
        scoped_lowerAll names no hs.2.2 h.2⟩
  | .forEach binding source body =>
      rw [Source.Statement.WellNamed] at hs
      rw [unboundIn, List.append_eq_nil_iff] at h
      rw [Source.Statement.lower, Instr.Scoped]
      exact ⟨startsIn_of_unboundPath hs.2.1 h.1,
        scoped_lowerAll (binding :: names) body hs.2.2 h.2⟩

/-- The instructions of a block without unbound paths are in scope. -/
theorem scoped_lowerAll (names : List String) (ss : List Source.Statement)
    (hs : Source.WellNamedStatements ss) (h : unboundInAll names ss = []) :
    ScopedBody names (lowerAll ss) := by
  match ss with
  | [] =>
      rw [lowerAll, ScopedBody]
      trivial
  | s :: rest =>
      rw [Source.WellNamedStatements] at hs
      rw [unboundInAll, List.append_eq_nil_iff] at h
      rw [lowerAll, ScopedBody]
      exact ⟨s.scoped_lower names hs.1 h.1, scoped_lowerAll names rest hs.2 h.2⟩

end

namespace View

/-! ## Bound look-ups -/

/-- Some member that the path names is missing, where all before it are there. -/
def MissesMember (value : Json) (path : List String) : Prop :=
  ∃ before name after owner, path = before ++ name :: after ∧
    members? value before = some owner ∧ member? name owner = none

theorem members?_eq_none_iff {value : Json} {path : List String} :
    members? value path = none ↔ MissesMember value path := by
  induction path generalizing value with
  | nil =>
      constructor
      · intro h
        cases h
      · rintro ⟨before, name, after, owner, hpath, -⟩
        exact absurd hpath.symm (List.append_ne_nil_of_right_ne_nil before (List.cons_ne_nil _ _))
  | cons first rest ih =>
      rw [members?]
      cases hfirst : member? first value with
      | none => exact ⟨fun _ => ⟨[], first, rest, value, rfl, rfl, hfirst⟩, fun _ => rfl⟩
      | some inner =>
          rw [Option.bind_some, ih]
          constructor
          · rintro ⟨before, name, after, owner, rfl, hbefore, hname⟩
            refine ⟨first :: before, name, after, owner, rfl, ?_, hname⟩
            rw [members?, hfirst, Option.bind_some, hbefore]
          · rintro ⟨before, name, after, owner, hpath, hbefore, hname⟩
            cases before with
            | nil =>
                cases hbefore
                cases hpath
                rw [hfirst] at hname
                cases hname
            | cons head before =>
                cases hpath
                rw [members?, hfirst, Option.bind_some] at hbefore
                exact ⟨before, name, after, owner, rfl, hbefore, hname⟩

/-- The path starts at a variable that is bound, so that it has no value only if a member
below that variable is missing. -/
def Lookup.Bound (call : Lookup) : Prop :=
  ∃ root members value, call.path = root :: members ∧
    call.scope.lookup root = some value ∧
    (resolve call.scope call.path = none ↔ MissesMember value members)

theorem bound_of_startsIn {scope : Scope} {path : List String}
    (h : StartsIn (scope.map Prod.fst) path) : Lookup.Bound { scope, path } := by
  match path with
  | root :: members =>
      obtain ⟨entry, hentry, rfl⟩ := List.mem_map.mp h
      obtain ⟨value, hvalue⟩ := Option.isSome_iff_exists.mp
        (List.lookup_isSome_iff.mpr ⟨entry, hentry, beq_self_eq_true entry.1⟩)
      refine ⟨entry.1, members, value, rfl, hvalue, ?_⟩
      rw [resolve, hvalue, Option.bind_some, members?_eq_none_iff]

mutual

theorem all_bound_runInstrM (scope : Scope) (i : Instr) (h : i.Scoped (scope.map Prod.fst)) :
    (runInstrM logged scope i).All Lookup.Bound := by
  match i with
  | .write text =>
      rw [runInstrM]
      exact Logged.all_pure _
  | .emit path =>
      rw [Instr.Scoped] at h
      rw [runInstrM]
      refine (Logged.all_logged (bound_of_startsIn h)).bind ?_
      split
      · exact Logged.all_pure _
      · exact Logged.all_pure _
  | .branch cond negate yes no =>
      rw [Instr.Scoped] at h
      rw [runInstrM]
      refine (Logged.all_logged (bound_of_startsIn h.1)).bind ?_
      split
      · exact all_bound_runBodyM scope yes h.2.1
      · exact all_bound_runBodyM scope no h.2.2
  | .forEach binding source body =>
      rw [Instr.Scoped] at h
      rw [runInstrM]
      refine (Logged.all_logged (bound_of_startsIn h.1)).bind ?_
      split
      · refine Logged.all_concatM fun item _ => ?_
        exact all_bound_runBodyM ((binding, item) :: scope) body h.2
      · exact Logged.all_pure _

/-- The invariant is that the names in scope are those of the variables, the innermost first;
a loop adds its variable to both. -/
theorem all_bound_runBodyM (scope : Scope) (body : List Instr)
    (h : ScopedBody (scope.map Prod.fst) body) :
    (runBodyM logged scope body).All Lookup.Bound := by
  match body with
  | [] =>
      rw [runBodyM]
      exact Logged.all_pure _
  | i :: rest =>
      rw [ScopedBody] at h
      rw [runBodyM]
      refine (all_bound_runInstrM scope i h.1).bind ?_
      exact (all_bound_runBodyM scope rest h.2).bind (Logged.all_pure _)

end

end View

/-! ## Types of a compiled module -/

theorem Compilation.scopeErrors_eq_nil {c : Compilation} {tree : Source.Tree}
    {d : Source.Declaration} (hdiagnostics : c.diagnostics = []) (htree : tree ∈ c.trees)
    (hd : d ∈ tree.types) : scopeErrors tree d = [] := by
  obtain ⟨index, hdeclared⟩ := exists_mem_declarations htree hd
  have herrors := (List.append_eq_nil_iff.mp hdiagnostics).2
  exact (List.append_eq_nil_iff.mp (List.flatMap_eq_nil_iff.mp herrors _ hdeclared)).2

theorem Compilation.wellNamed_tagged {units : List GeneratedUnit}
    {references : List (Except Diagnostic Module)} {c : Compilation}
    (h : ofUnits units references = .ok c) {tree : Source.Tree} (htree : tree ∈ c.tagged.trees) :
    ∀ d ∈ tree.types, d.WellNamed := by
  obtain ⟨parsed, hparsed, rfl⟩ := List.mem_map.mp htree
  obtain ⟨u, -, hparse⟩ := exists_of_forall₂ (forall₂_parse h).flip hparsed
  exact Source.wellNamed_tagTypes (Source.wellNamed_of_parse hparse)

/-- The render bodies of a compiled module are in scope of the model. -/
theorem scopedBody_of_compileUnits {name : String} {units : List GeneratedUnit}
    {references : List (Except Diagnostic Module)} {compiled : Compiled} {type : TypeDef}
    (h : compileUnits name units references = .ok compiled)
    (htype : type ∈ compiled.module.types) : ScopedBody [modelVariable] type.body := by
  obtain ⟨c, hunits, hyields⟩ := exists_yields_of_compileUnits_eq h
  rw [hyields.module] at htype
  obtain ⟨tree, htree, htype⟩ := List.mem_flatMap.mp htype
  obtain ⟨d, hd, rfl⟩ := List.mem_map.mp htype
  have hnames := Compilation.wellNamed_tagged hunits htree d hd
  have herrors := Compilation.scopeErrors_eq_nil hyields.tagged_diagnostics htree hd
  refine scoped_lowerAll _ _ ?_ (List.map_eq_nil_iff.mp herrors)
  cases hrender : d.render with
  | none =>
      rw [Option.getD_none, Source.WellNamedStatements]
      trivial
  | some block => exact hnames.render block hrender

/-- A type of a compiled module is rendered, against any model, by look-ups that all start at a
variable bound at that moment: a run that gets values from recorded look-ups only writes the
same text. -/
theorem lookups_bound_of_compileUnits {name : String} {units : List GeneratedUnit}
    {references : List (Except Diagnostic Module)} {compiled : Compiled} {type : TypeDef}
    (h : compileUnits name units references = .ok compiled)
    (htype : type ∈ compiled.module.types) (model : Json) :
    let run := View.runBodyM View.logged [("model", model)] type.body
    View.render type.body model = String.join (run.value.map View.Chunk.html) ∧
      ∀ call ∈ run.lookups, call.Bound := by
  intro run
  refine ⟨?_, ?_⟩
  · rw [View.render, View.value_runBodyM]
  · exact View.all_bound_runBodyM [("model", model)] type.body (scopedBody_of_compileUnits h htype)

/-- The code of a class with a loop whose variable hides the model, and a loop inside it. -/
def hiddenModel : List Char :=
  "class A\x7brender\x7bfor model in model\x7bif model.x\x7bfor x in model.x\x7b".toList
    ++ "emit x.y;\x7d\x7d\x7d\x7d\x7d".toList

/-- The second item of the model has no members, and the only item of the first has no `y`. -/
theorem lookups_bound_of_hiddenModel :
    let model : Json := .arr [.obj [("x", .arr [.bool true])], .null]
    ∃ compiled,
      compileUnits "m"
          [{ path := "a", code := String.ofList hiddenModel, diagnostics := [] }] []
        = .ok compiled ∧
      ∃ type ∈ compiled.module.types,
        let run := View.runBodyM View.logged [("model", model)] type.body
        run.lookups.map View.Lookup.path
            = [["model"], ["model", "x"], ["model", "x"], ["x", "y"], ["model", "x"]] ∧
          View.render type.body model = String.join (run.value.map View.Chunk.html) ∧
          ∀ call ∈ run.lookups, call.Bound := by
  intro model
  obtain ⟨-, compiled, -, hcompile, hpaths⟩ := exists_compiled_of_chars [] "m" "a" hiddenModel
    (fun _ compiled => compiled.module.types.map fun type =>
      (View.runBodyM View.logged [("model", model)] type.body).lookups.map View.Lookup.path)
    [[["model"], ["model", "x"], ["model", "x"], ["x", "y"], ["model", "x"]]]
    (by decide +kernel)
  obtain ⟨type, htypes, hpaths⟩ := List.map_eq_singleton_iff.mp hpaths
  have htype : type ∈ compiled.module.types := by
    rw [htypes]
    exact List.mem_singleton_self type
  exact ⟨compiled, hcompile, type, htype, hpaths,
    lookups_bound_of_compileUnits hcompile htype model⟩

end ViewPress
