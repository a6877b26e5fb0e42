import ViewPress.Proofs.Pages

/-!
# Tagging one tree at a time

A compilation tags all its trees by one and the same symbol table, that of the
compilation as it was checked. Nothing would change if it tagged them one after the
other, each by the symbols of what it has so far. Symbols say nothing about view
paths, so the table is the same at every step, and a tree that is met again is
already as tagging leaves it. In the end every tree that was met is the one that the
snapshot gives, whatever the order and however often.

None of this needs the compilation to be free of diagnostics. Names may be declared
twice and bases may go round in circles; the table just stays what it is.
-/

namespace ViewPress

open Source (Attribute Declaration Tree)

/-! ## A tree that is tagged again -/

theorem tagged_tagged (d : Declaration) (path : String) :
    (d.tagged path).tagged path = d.tagged path := by
  have hattributes : (d.tagged path).untagged.attributes = d.untagged.attributes :=
    congrArg Declaration.attributes (untagged_tagged d path)
  rw [Declaration.tagged, hattributes]
  rfl

section

variable {isPage : Declaration → Bool} (huntagged : ∀ d, isPage d.untagged = isPage d)
  (htagged : ∀ d path, isPage (d.tagged path) = isPage d)
include huntagged htagged

theorem tagTypes_tagTypes (path : String) (viewTagged : Bool) (types : List Declaration) :
    tagTypes isPage path viewTagged (tagTypes isPage path viewTagged types)
      = tagTypes isPage path viewTagged types := by
  induction types generalizing viewTagged with
  | nil => rfl
  | cons d rest ih =>
      by_cases hd : isPage d
      · cases viewTagged with
        | true => simp only [tagTypes, hd, huntagged, untagged_untagged, if_true, ih]
        | false => simp only [tagTypes, hd, htagged, tagged_tagged, if_true, ih, Bool.false_eq_true,
            if_false]
      · simp only [tagTypes, hd, ih, Bool.false_eq_true, if_false]

end

theorem tagTree_tagTree (symbols : Symbols) (tree : Tree) :
    tagTree symbols (tagTree symbols tree) = tagTree symbols tree := by
  simp only [tagTree]
  rw [tagTypes_tagTypes (fun _ => rfl) (fun _ _ => rfl)]

/-! ## One tree after the other -/

namespace Compilation

/-- Tags the tree of an index, by the symbols of the compilation as it is. -/
def tagAt (c : Compilation) (index : Nat) : Compilation :=
  { c with trees := c.trees.modify index (tagTree c.symbols) }

/-- Tags the trees of a list of indices, each in the compilation that the ones before it
have left. -/
def tagInOrder (c : Compilation) (order : List Nat) : Compilation :=
  order.foldl tagAt c

theorem untagged_tagAt (c : Compilation) (index : Nat) : (c.tagAt index).untagged = c.untagged := by
  have htrees : (c.tagAt index).trees.map Tree.untagged = c.trees.map Tree.untagged := by
    refine List.ext_getElem? fun i => ?_
    rw [tagAt, List.getElem?_map, List.getElem?_modify, List.getElem?_map]
    cases c.trees[i]? with
    | none => rfl
    | some tree =>
        simp only [Option.map_eq_map, Option.map_some]
        split
        · rw [untagged_tagTree]
        · rfl
  rw [untagged, htrees]
  rfl

theorem untagged_tagInOrder (c : Compilation) (order : List Nat) :
    (c.tagInOrder order).untagged = c.untagged := by
  induction order generalizing c with
  | nil => rfl
  | cons index rest ih => exact (ih (c.tagAt index)).trans (untagged_tagAt c index)

theorem symbols_tagAt (c : Compilation) (index : Nat) : (c.tagAt index).symbols = c.symbols :=
  symbols_eq_of_untagged_eq (untagged_tagAt c index)

/-- What has become of each tree: those that were met are tagged by the symbols that the
compilation had at first, the others are as they were. -/
theorem getElem?_tagInOrder (c : Compilation) (order : List Nat) (i : Nat) :
    (c.tagInOrder order).trees[i]?
      = c.trees[i]?.map fun tree => if i ∈ order then tagTree c.symbols tree else tree := by
  induction order generalizing c with
  | nil => simp [tagInOrder]
  | cons index rest ih =>
      have hrest := ih (c.tagAt index)
      rw [symbols_tagAt] at hrest
      rw [tagInOrder, List.foldl_cons, ← tagInOrder, hrest, tagAt, List.getElem?_modify,
        Option.map_eq_map, Option.map_map]
      refine congrArg (Option.map · c.trees[i]?) (funext fun tree => ?_)
      by_cases hindex : index = i <;> by_cases hmem : i ∈ rest
      · simp [hindex, hmem, tagTree_tagTree]
      · simp [hindex, hmem]
      · simp [hindex, hmem]
      · simp [hindex, hmem, Ne.symm hindex]

end Compilation

/-! ## What a declaration keeps -/

/-- Declarations that differ in their view paths only. -/
structure Source.Declaration.SameButTags (d d' : Declaration) : Prop where
  kind : d'.kind = d.kind
  name : d'.name = d.name
  bases : d'.bases = d.bases
  render : d'.render = d.render
  span : d'.span = d.span
  attributes : d'.attributes.filter (·.name != Module.viewPathAttribute)
    = d.attributes.filter (·.name != Module.viewPathAttribute)

theorem sameButTags_of_untagged_eq {d d' : Declaration} (h : d'.untagged = d.untagged) :
    d.SameButTags d' := by
  obtain ⟨hattributes, hkind, hname, hbases, hrender, hspan⟩ := Declaration.mk.inj h
  exact ⟨hkind, hname, hbases, hrender, hspan, hattributes⟩

/-- Trees whose declarations differ in their view paths only. -/
structure Source.Tree.SameButTags (tree tree' : Tree) : Prop where
  path : tree'.path = tree.path
  source : tree'.source = tree.source
  types : List.Forall₂ Declaration.SameButTags tree.types tree'.types

theorem forall₂_of_map_eq {α β : Type} {f : α → β} {R : α → α → Prop}
    (hR : ∀ a a', f a' = f a → R a a') {as as' : List α} (h : as'.map f = as.map f) :
    List.Forall₂ R as as' := by
  have heq : List.Forall₂ (· = ·) (as.map f) (as'.map f) := by
    rw [h, List.forall₂_eq_eq_eq]
  rw [List.forall₂_map_left_iff, List.forall₂_map_right_iff] at heq
  exact heq.imp fun a a' haa' => hR a a' haa'.symm

theorem Source.Tree.sameButTags_of_untagged_eq {tree tree' : Tree}
    (h : tree'.untagged = tree.untagged) : tree.SameButTags tree' := by
  obtain ⟨hpath, hsource, htypes⟩ := Tree.mk.inj h
  exact ⟨hpath, hsource, forall₂_of_map_eq (fun _ _ => ViewPress.sameButTags_of_untagged_eq) htypes⟩

namespace Compilation

/-- The page classes of a tagged compilation have the path of their tree and no other, each
tree on one of them. -/
theorem viewPaths_tagged (c : Compilation) {tree : Tree} (h : tree ∈ c.tagged.trees) :
    (tree.types.filter c.symbols.isPageClass).filterMap (·.typeDef.viewPath?)
      = if tree.types.any c.symbols.isPageClass then [tree.path] else [] := by
  obtain ⟨tree, -, rfl⟩ := List.mem_map.mp h
  have hany : (tagTree c.symbols tree).types.any c.symbols.isPageClass
      = tree.types.any c.symbols.isPageClass := by
    have huntagged := congrArg (List.any · c.symbols.isPageClass)
      (congrArg Tree.types (untagged_tagTree c.symbols tree))
    simp only [Tree.untagged, List.any_map] at huntagged
    exact huntagged
  rw [hany]
  exact viewPaths_tagTypes (fun _ => rfl) (fun _ _ => rfl) tree.path false tree.types

/-- Tagging the trees one at a time, in any order that meets each of them, is tagging
them all at once. At every point on the way the symbols are those of the start, and no
declaration has changed in anything but its view paths. In the end each tree with a page
class has its path on one of them. -/
theorem tagInOrder_eq_tagged (c : Compilation) (order : List Nat)
    (hall : ∀ i < c.trees.length, i ∈ order) :
    c.tagInOrder order = c.tagged ∧
      (∀ done, done <+: order →
        (c.tagInOrder done).symbols = c.symbols ∧
        (c.tagInOrder done).references = c.references ∧
        List.Forall₂ Tree.SameButTags c.trees (c.tagInOrder done).trees) ∧
      ∀ tree ∈ (c.tagInOrder order).trees,
        (tree.types.filter c.symbols.isPageClass).filterMap (·.typeDef.viewPath?)
          = if tree.types.any c.symbols.isPageClass then [tree.path] else [] := by
  have htagged : c.tagInOrder order = c.tagged := by
    have htrees : (c.tagInOrder order).trees = c.tagged.trees := by
      refine List.ext_getElem? fun i => ?_
      rw [getElem?_tagInOrder, tagged, List.getElem?_map]
      by_cases hi : i < c.trees.length
      · simp only [hall i hi, if_true]
      · rw [List.getElem?_eq_none (by omega), Option.map_none, Option.map_none]
    obtain ⟨-, hreferences⟩ := Compilation.mk.inj (untagged_tagInOrder c order)
    rw [Compilation.mk.injEq]
    exact ⟨htrees, hreferences⟩
  refine ⟨htagged, ?_, ?_⟩
  · intro done _
    have huntagged := untagged_tagInOrder c done
    obtain ⟨htrees, hreferences⟩ := Compilation.mk.inj huntagged
    exact ⟨symbols_eq_of_untagged_eq huntagged, hreferences,
      forall₂_of_map_eq (fun _ _ => Tree.sameButTags_of_untagged_eq) htrees⟩
  · rw [htagged]
    exact fun tree htree => viewPaths_tagged c htree

/-- Two trees that declare one name twice, derive from each other and carry old paths. -/
def oldTags : Compilation where
  trees :=
    [ { path := "a.tpl", source := "",
        types :=
          [ { attributes := [⟨"ViewPath", ["old"], {}⟩, ⟨"Mark", [], {}⟩], kind := .classType,
              name := "A", bases := [⟨"Page", {}⟩, ⟨"B", {}⟩], render := none } ] },
      { path := "b.tpl", source := "",
        types :=
          [ { attributes := [], kind := .classType, name := "B", bases := [⟨"A", {}⟩],
              render := none },
            { attributes := [⟨"ViewPath", [], {}⟩], kind := .classType, name := "A",
              bases := [⟨"B", {}⟩], render := none } ] } ]
  references := [Module.host]

theorem tagInOrder_oldTags :
    (∀ i < oldTags.trees.length, i ∈ [1, 0, 1]) ∧
      oldTags.tagInOrder [1, 0, 1] = oldTags.tagged := by
  have hall : ∀ i < oldTags.trees.length, i ∈ [1, 0, 1] := by decide
  exact ⟨hall, (tagInOrder_eq_tagged oldTags [1, 0, 1] hall).1⟩

end Compilation

end ViewPress
