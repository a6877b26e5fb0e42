import ViewPress.Module.Basic
import ViewPress.Source.Tree

/-!
# Symbols and their base chains

The types that a compilation knows are those its references export, in reference
order, and then those its trees declare, in tree order. Where a name occurs twice
the first counts. `Symbols.implements` follows bases from a name; it terminates on
cyclic tables too, because every symbol is followed once.
-/

namespace ViewPress

/-- Where a type comes from: a tree, by its index, or a referenced module. -/
inductive Origin where
  | source (index : Nat)
  | reference (module : String)
  deriving DecidableEq, Repr

structure Symbol where
  name : String
  kind : TypeKind
  bases : List String
  origin : Origin
  deriving DecidableEq, Repr

/-- Trees and the modules they are compiled against. -/
structure Compilation where
  trees : List Source.Tree
  references : List Module

/-- A symbol table. The first symbol of a name is the one that counts. -/
abbrev Symbols := List Symbol

def Symbols.find? (symbols : Symbols) (name : String) : Option Symbol :=
  List.find? (·.name == name) symbols

def Source.DeclarationKind.typeKind : Source.DeclarationKind → TypeKind
  | .classType => .classType
  | .interfaceType => .interfaceType

/-- The symbol of a declaration in the tree of an index. -/
def Symbol.ofDeclaration (index : Nat) (d : Source.Declaration) : Symbol where
  name := d.name
  kind := d.kind.typeKind
  bases := d.bases.map Source.BaseRef.name
  origin := .source index

namespace Compilation

def referenceSymbols (c : Compilation) : Symbols :=
  c.references.flatMap fun m =>
    m.types.map fun t =>
      { name := t.name, kind := t.kind, bases := t.bases, origin := .reference m.name }

/-- The declarations of all trees in order, with the tree and its index. -/
def declarations (c : Compilation) : List (Nat × Source.Tree × Source.Declaration) :=
  c.trees.zipIdx.flatMap fun (tree, index) => tree.types.map fun d => (index, tree, d)

def declaredSymbols (c : Compilation) : Symbols :=
  c.declarations.map fun (index, _, d) => Symbol.ofDeclaration index d

def symbols (c : Compilation) : Symbols :=
  c.referenceSymbols ++ c.declaredSymbols

end Compilation

namespace Symbols

/-- What a search that has followed `seen` still has to follow: one for every other
symbol and one for each of its bases. -/
def unfollowed (symbols : Symbols) (seen : List String) : Nat :=
  symbols.foldr (fun s rest => (if seen.contains s.name then 0 else s.bases.length + 1) + rest) 0

theorem unfollowed_cons_le (symbols : Symbols) (seen : List String) (name : String) :
    symbols.unfollowed (name :: seen) ≤ symbols.unfollowed seen := by
  induction symbols with
  | nil => exact Nat.le_refl _
  | cons t ts ih =>
      unfold unfollowed at ih ⊢
      simp only [List.foldr_cons]
      by_cases hseen : seen.contains t.name = true
      · have hnew : (name :: seen).contains t.name = true := by
          rw [List.contains_cons, hseen, Bool.or_true]
        rw [if_pos hseen, if_pos hnew]
        omega
      · rw [if_neg hseen]
        split <;> omega

/-- Following a symbol for the first time pays for the bases it puts on the list. -/
theorem unfollowed_cons_lt {symbols : Symbols} {seen : List String} {name : String} {s : Symbol}
    (hfind : symbols.find? name = some s) (hseen : seen.contains name = false) :
    symbols.unfollowed (name :: seen) + s.bases.length < symbols.unfollowed seen := by
  induction symbols with
  | nil => simp [find?] at hfind
  | cons t ts ih =>
      by_cases ht : t.name = name
      · have hts : t = s := by
          unfold find? at hfind
          rw [List.find?_cons_of_pos (by simpa using ht)] at hfind
          exact Option.some.inj hfind
        have hle := unfollowed_cons_le ts seen name
        have hnew : (name :: seen).contains t.name = true := by simp [ht]
        have hold : seen.contains t.name = false := by rw [ht, hseen]
        unfold unfollowed at hle ⊢
        simp only [List.foldr_cons]
        rw [if_pos hnew, if_neg (by rw [hold]; exact Bool.false_ne_true), hts]
        omega
      · have hrest : Symbols.find? ts name = some s := by
          unfold find? at hfind ⊢
          rwa [List.find?_cons_of_neg (by simpa using ht)] at hfind
        have hlt := ih hrest
        have hsame : (name :: seen).contains t.name = seen.contains t.name := by simp [ht]
        unfold unfollowed at hlt ⊢
        simp only [List.foldr_cons]
        rw [hsame]
        omega

/-- Whether a search that has followed `seen` meets `target` from one of the
`pending` names. -/
def reaches (symbols : Symbols) (target : String) (seen pending : List String) : Bool :=
  match pending with
  | [] => false
  | current :: rest =>
      if current = target then true
      else if hs : seen.contains current then reaches symbols target seen rest
      else
        match h : symbols.find? current with
        | none => reaches symbols target seen rest
        | some s =>
            have : symbols.unfollowed (current :: seen) + s.bases.length
                < symbols.unfollowed seen :=
              unfollowed_cons_lt h (by simpa using hs)
            reaches symbols target (current :: seen) (s.bases ++ rest)
termination_by symbols.unfollowed seen + pending.length
decreasing_by
  all_goals
    simp only [List.length_append, List.length_cons]
    omega

/-- Whether a name is `marker` or has it among the bases of its bases. -/
def implements (symbols : Symbols) (name marker : String) : Bool :=
  symbols.reaches marker [] [name]

/-- Whether the bases of a name lead back to it. -/
def inCycle (symbols : Symbols) (name : String) : Bool :=
  match symbols.find? name with
  | none => false
  | some s => symbols.reaches name [] s.bases

/-- Whether a base of a declaration leads to `marker`. -/
def baseImplements (symbols : Symbols) (d : Source.Declaration) (marker : String) : Bool :=
  d.bases.any fun b => symbols.implements b.name marker

end Symbols

end ViewPress
