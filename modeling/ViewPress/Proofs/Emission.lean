import ViewPress.Proofs.Pages

/-!
# When emission fails

Emission refuses a unit with pages none of which has a path, a page with more than
one, and a path whose key is taken. After tagging only the last is left. In every tree
the first page has the path of the tree and the pages after it have none, so a tree
with a page takes exactly one key, and it clashes with the trees before it that took
the same.

This rests on the tagger and the emitter meaning the same by a page, since the tagger
would otherwise leave out a page that the emitter then misses a path on. They do, in a
compilation without diagnostics.
-/

namespace ViewPress

open Source (Declaration Tree)
open ViewPath (lookupKey)

/-! ## The tags of a tagged tree -/

theorem tags_untagged (d : Declaration) : d.untagged.tags = [] := by
  simp [Declaration.tags, Declaration.untagged, List.filter_filter]

theorem tags_tagged (d : Declaration) (path : String) :
    (d.tagged path).tags = [{ name := Module.viewPathAttribute, args := [path] }] := by
  have huntagged : d.untagged.attributes.filter (·.name == Module.viewPathAttribute) = [] :=
    tags_untagged d
  rw [Declaration.tags, Declaration.tagged, List.filter_append, huntagged]
  rfl

theorem tagTypes_congr {isPage isPage' : Declaration → Bool} {types : List Declaration}
    (h : ∀ d ∈ types, isPage d = isPage' d) (path : String) (viewTagged : Bool) :
    tagTypes isPage path viewTagged types = tagTypes isPage' path viewTagged types := by
  induction types generalizing viewTagged with
  | nil => rfl
  | cons d rest ih =>
      obtain ⟨hd, hrest⟩ := List.forall_mem_cons.mp h
      rw [tagTypes, tagTypes, hd, ih hrest, ih hrest]

/-- Whether a declaration is a page is the same before and after tagging. -/
theorem map_isPage_tagTree (symbols : Symbols) (tree : Tree) :
    (tagTree symbols tree).types.map symbols.isPage = tree.types.map symbols.isPage := by
  have huntagged := congrArg (List.map symbols.isPage)
    (congrArg Tree.types (untagged_tagTree symbols tree))
  simp only [Tree.untagged, List.map_map] at huntagged
  exact huntagged

/-- The pages of a tagged tree, from those that it declares. -/
def tagPages (path : String) : List Declaration → List Declaration
  | [] => []
  | view :: others => view.tagged path :: others.map Declaration.untagged

section

variable {isPage : Declaration → Bool} (huntagged : ∀ d, isPage d.untagged = isPage d)
  (htagged : ∀ d path, isPage (d.tagged path) = isPage d)
include huntagged

theorem filter_tagTypes_true (path : String) (types : List Declaration) :
    (tagTypes isPage path true types).filter isPage
      = (types.filter isPage).map Declaration.untagged := by
  induction types with
  | nil => rfl
  | cons d rest ih =>
      by_cases hd : isPage d = true
      · have hhead : isPage d.untagged = true := by rw [huntagged, hd]
        rw [tagTypes, if_pos hd, if_pos rfl, List.filter_cons_of_pos hhead,
          List.filter_cons_of_pos hd, List.map_cons, ih]
      · rw [tagTypes, if_neg hd, List.filter_cons_of_neg hd, List.filter_cons_of_neg hd, ih]

include htagged

theorem filter_tagTypes_false (path : String) (types : List Declaration) :
    (tagTypes isPage path false types).filter isPage = tagPages path (types.filter isPage) := by
  induction types with
  | nil => rfl
  | cons d rest ih =>
      by_cases hd : isPage d = true
      · have hhead : isPage (d.tagged path) = true := by rw [htagged, hd]
        rw [tagTypes, if_pos hd, if_neg Bool.false_ne_true, List.filter_cons_of_pos hhead,
          filter_tagTypes_true huntagged, List.filter_cons_of_pos hd, tagPages]
      · rw [tagTypes, if_neg hd, List.filter_cons_of_neg hd, List.filter_cons_of_neg hd, ih]

end

/-! ## What a tagged tree takes -/

namespace Owners

/-- What is wrong with a page that takes a path. -/
def clash (owners : Owners) (path name : String) : List EmissionProblem :=
  match owners.lookup (lookupKey path) with
  | some first => [.ownedTwice path first name]
  | none => []

theorem clash_eq_nil_iff {owners : Owners} {path name : String} :
    owners.clash path name = [] ↔ owners.lookup (lookupKey path) = none := by
  rw [clash]
  cases owners.lookup (lookupKey path) <;> simp

theorem exists_of_mem_clash {owners : Owners} {path name : String} {p : EmissionProblem}
    (h : p ∈ owners.clash path name) : ∃ first, p = .ownedTwice path first name := by
  rw [clash] at h
  split at h
  · next first _ => exact ⟨first, List.mem_singleton.mp h⟩
  · cases h

theorem page_tagged (owners : Owners) (d : Declaration) (path : String) :
    owners.page (d.tagged path)
      = ((lookupKey path, d.name) :: owners, owners.clash path d.name) := by
  rw [page, tags_tagged]
  rfl

theorem pages_map_untagged (owners : Owners) (ds : List Declaration) :
    owners.pages (ds.map Declaration.untagged) = (owners, []) := by
  induction ds with
  | nil => rfl
  | cons d rest ih => simp only [List.map_cons, pages, page, tags_untagged, ih, List.append_nil,
      List.map_nil]

/-- Takes up the pages of a tree, of which the first has the path of the tree. -/
def view (owners : Owners) (path : String) :
    List Declaration → Owners × List (Declaration × EmissionProblem)
  | [] => (owners, [])
  | view :: _ =>
      ((lookupKey path, view.name) :: owners,
        (owners.clash path view.name).map (view.tagged path, ·))

variable {symbols : Symbols}

/-- A tagged tree takes the key of its path if it has a page, and nothing else can be wrong
with it than that the key is taken. -/
theorem tree_tagTree {tree : Tree}
    (hpages : ∀ d ∈ tree.types, symbols.isPageClass d = symbols.isPage d) (owners : Owners) :
    owners.tree symbols (tagTree symbols tree)
      = owners.view tree.path (tree.types.filter symbols.isPage) := by
  have hfilter : (tagTree symbols tree).types.filter symbols.isPage
      = tagPages tree.path (tree.types.filter symbols.isPage) := by
    rw [tagTree, tagTypes_congr hpages]
    exact filter_tagTypes_false (fun _ => rfl) (fun _ _ => rfl) tree.path tree.types
  simp only [Owners.tree, hfilter]
  cases tree.types.filter symbols.isPage with
  | nil => rfl
  | cons view others =>
      simp only [tagPages, pages, page_tagged, pages_map_untagged, List.append_nil,
        List.all_cons, tags_tagged, List.isEmpty_cons, Bool.false_and, Bool.false_eq_true, if_false]
      rfl

/-- The key that a tree takes once it is tagged, if it has a page. -/
def key? (symbols : Symbols) (tree : Tree) : Option String :=
  if tree.types.any symbols.isPage then some (lookupKey tree.path) else none

theorem key?_of_filter_eq_nil {tree : Tree} (h : tree.types.filter symbols.isPage = []) :
    key? symbols tree = none := by
  refine if_neg fun hany => ?_
  obtain ⟨d, hd, hpage⟩ := List.any_eq_true.mp hany
  exact List.filter_eq_nil_iff.mp h d hd hpage

theorem key?_of_filter_eq_cons {tree : Tree} {view : Declaration} {others : List Declaration}
    (h : tree.types.filter symbols.isPage = view :: others) :
    key? symbols tree = some (lookupKey tree.path) := by
  have hview : view ∈ tree.types.filter symbols.isPage := by rw [h]; exact List.mem_cons_self
  exact if_pos (List.any_eq_true.mpr ⟨view, List.mem_filter.mp hview⟩)

theorem lookup_cons_eq_none_iff {owners : Owners} {key taken name : String} :
    List.lookup key ((taken, name) :: owners) = none ↔ key ≠ taken ∧ owners.lookup key = none := by
  by_cases hkey : key = taken
  · simp [hkey]
  · rw [List.lookup_cons, beq_false_of_ne hkey]
    exact (and_iff_right hkey).symm

/-- Tagged trees are free of problems if and only if each finds its key not taken, neither at
the start nor by a tree before it. -/
theorem trees_map_tagTree_eq_nil_iff {trees : List Tree}
    (hpages : ∀ tree ∈ trees, ∀ d ∈ tree.types, symbols.isPageClass d = symbols.isPage d)
    (owners : Owners) :
    owners.trees symbols (trees.map (tagTree symbols)) = [] ↔
      (∀ key ∈ trees.filterMap (key? symbols), owners.lookup key = none) ∧
        (trees.filterMap (key? symbols)).Nodup := by
  induction trees generalizing owners with
  | nil => simp [trees]
  | cons tree rest ih =>
      obtain ⟨htree, hrest⟩ := List.forall_mem_cons.mp hpages
      rw [List.map_cons, Owners.trees, tree_tagTree htree, List.append_eq_nil_iff,
        List.map_eq_nil_iff, ih hrest]
      cases hfilter : tree.types.filter symbols.isPage with
      | nil =>
          rw [List.filterMap_cons_none (key?_of_filter_eq_nil hfilter)]
          exact and_iff_right rfl
      | cons view others =>
          rw [List.filterMap_cons_some (key?_of_filter_eq_cons hfilter), List.forall_mem_cons,
            List.nodup_cons]
          simp only [Owners.view, List.map_eq_nil_iff, clash_eq_nil_iff, lookup_cons_eq_none_iff,
            forall_and]
          have hne : (∀ key ∈ rest.filterMap (key? symbols), key ≠ lookupKey tree.path) ↔
              lookupKey tree.path ∉ rest.filterMap (key? symbols) :=
            ⟨fun h hmem => h _ hmem rfl, fun h key hkey heq => h (heq ▸ hkey)⟩
          tauto

/-- Nothing is ever wrong with tagged trees but a key that is taken. -/
theorem exists_of_mem_trees_map_tagTree {trees : List Tree}
    (hpages : ∀ tree ∈ trees, ∀ d ∈ tree.types, symbols.isPageClass d = symbols.isPage d)
    {owners : Owners} {diagnostic : Diagnostic}
    (h : diagnostic ∈ owners.trees symbols (trees.map (tagTree symbols))) :
    ∃ path first second,
      diagnostic.message = (EmissionProblem.ownedTwice path first second).message := by
  induction trees generalizing owners with
  | nil => cases h
  | cons tree rest ih =>
      obtain ⟨htree, hrest⟩ := List.forall_mem_cons.mp hpages
      rw [List.map_cons, Owners.trees, tree_tagTree htree] at h
      rcases List.mem_append.mp h with h | h
      · obtain ⟨⟨d, p⟩, hp, rfl⟩ := List.mem_map.mp h
        cases hfilter : tree.types.filter symbols.isPage with
        | nil =>
            rw [hfilter] at hp
            cases hp
        | cons view others =>
            rw [hfilter] at hp
            obtain ⟨q, hq, heq⟩ := List.mem_map.mp hp
            obtain ⟨first, rfl⟩ := exists_of_mem_clash hq
            cases heq
            exact ⟨tree.path, first, view.name, rfl⟩
      · exact ih hrest h

end Owners

/-! ## Emission -/

theorem EmissionProblem.message_ownedTwice_ne (path first second name : String) :
    (ownedTwice path first second).message ≠ (untagged name).message := by
  intro h
  unfold message at h
  have hhead := congrArg (fun s : String => s.toList.head?) h
  simp at hhead

namespace Compilation

variable {c : Compilation}

theorem emit_eq_error_iff {name : String} {problems : List Diagnostic} :
    c.emit name = .error problems ↔
      problems ≠ [] ∧ Owners.trees [] c.symbols c.trees = problems := by
  rw [emit]
  split
  · next h => simp [h, eq_comm]
  · next h =>
      rw [Except.error.injEq]
      exact ⟨fun heq => ⟨fun hnil => h (heq.trans hnil), heq⟩, And.right⟩

/-- Trees that have pages and paths with the same key. -/
def Clash (symbols : Symbols) (s t : Tree) : Prop :=
  (∃ d ∈ s.types, symbols.Page d) ∧ (∃ d ∈ t.types, symbols.Page d) ∧
    lookupKey s.path = lookupKey t.path

/-- The keys that trees take differ if and only if no tree clashes with a later one. -/
theorem nodup_key?_iff {trees : List Tree} {symbols : Symbols}
    (hpages : ∀ tree ∈ trees, ∀ d ∈ tree.types, symbols.isPage d = true ↔ symbols.Page d) :
    (trees.filterMap (Owners.key? symbols)).Nodup ↔
      ¬ ∃ (i j : Nat) (s t : Tree), i < j ∧ trees[i]? = some s ∧ trees[j]? = some t ∧
        Clash symbols s t := by
  have hkey : ∀ tree ∈ trees, ∀ key, Owners.key? symbols tree = some key ↔
      (∃ d ∈ tree.types, symbols.Page d) ∧ lookupKey tree.path = key := by
    intro tree htree key
    have hany : tree.types.any symbols.isPage = true ↔ ∃ d ∈ tree.types, symbols.Page d := by
      rw [List.any_eq_true]
      exact exists_congr fun d => and_congr_right (hpages tree htree d)
    rw [Owners.key?, ← hany]
    split <;> simp [*]
  rw [List.Nodup, List.pairwise_filterMap, List.pairwise_iff_getElem]
  constructor
  · rintro h ⟨i, j, s, t, hij, hs, ht, hpage, hpage', hpath⟩
    obtain ⟨hi, rfl⟩ := List.getElem?_eq_some_iff.mp hs
    obtain ⟨hj, rfl⟩ := List.getElem?_eq_some_iff.mp ht
    exact h i j hi hj hij _ ((hkey _ (List.getElem_mem hi) _).mpr ⟨hpage, rfl⟩) _
      ((hkey _ (List.getElem_mem hj) _).mpr ⟨hpage', rfl⟩) hpath
  · intro h i j hi hj hij key hs key' ht heq
    obtain ⟨hpage, hpath⟩ := (hkey _ (List.getElem_mem hi) _).mp hs
    obtain ⟨hpage', hpath'⟩ := (hkey _ (List.getElem_mem hj) _).mp ht
    exact h ⟨i, j, _, _, hij, List.getElem?_eq_getElem hi, List.getElem?_eq_getElem hj, hpage,
      hpage', by rw [hpath, hpath', heq]⟩

/-- In a compilation without diagnostics whose references export the page marker, the tagger
and the emitter agree on every declaration whether it is a page. So what is tagged
cannot be emitted if and only if two trees with pages have paths with the same key, and
that a page has no path or too many is never the reason. -/
theorem emit_tagged_error_iff (name : String) (hdiagnostics : c.diagnostics = [])
    (hexports : c.Exports Module.pageMarker) :
    (∀ tree ∈ c.trees, (tagTree c.symbols tree).types.map c.tagged.symbols.isPage
        = tree.types.map c.symbols.isPageClass) ∧
      ((∃ problems, c.tagged.emit name = .error problems) ↔
        ∃ (i j : Nat) (s t : Tree), i < j ∧ c.trees[i]? = some s ∧ c.trees[j]? = some t ∧
          Clash c.symbols s t) ∧
      ∀ problems, c.tagged.emit name = .error problems → ∀ p ∈ problems, ∀ page,
        p.message ≠ (EmissionProblem.untagged page).message := by
  have hpages : ∀ tree ∈ c.trees, ∀ d ∈ tree.types,
      c.symbols.isPageClass d = c.symbols.isPage d := by
    intro tree htree d hd
    exact isPageClass_eq_isPage hdiagnostics hexports htree hd
  have hpage : ∀ tree ∈ c.trees, ∀ d ∈ tree.types,
      c.symbols.isPage d = true ↔ c.symbols.Page d := by
    intro tree htree d hd
    obtain ⟨index, hindex⟩ := exists_mem_declarations htree hd
    rw [← hpages tree htree d hd, isPageClass_iff hdiagnostics hindex]
  have hemit (problems : List Diagnostic) : c.tagged.emit name = .error problems ↔
      problems ≠ [] ∧ Owners.trees [] c.symbols (c.trees.map (tagTree c.symbols)) = problems := by
    rw [emit_eq_error_iff, symbols_tagged]
    rfl
  refine ⟨?_, ?_, ?_⟩
  · intro tree htree
    rw [symbols_tagged, map_isPage_tagTree]
    exact List.map_congr_left fun d hd => (hpages tree htree d hd).symm
  · have hnodup := Owners.trees_map_tagTree_eq_nil_iff hpages []
    simp only [List.lookup_nil, implies_true, true_and, nodup_key?_iff hpage] at hnodup
    simp only [hemit, exists_eq_right', ne_eq, hnodup, not_not]
  · intro problems hproblems p hp page
    rw [hemit] at hproblems
    rw [← hproblems.2] at hp
    obtain ⟨path, first, second, hmessage⟩ := Owners.exists_of_mem_trees_map_tagTree hpages hp
    rw [hmessage]
    exact EmissionProblem.message_ownedTwice_ne path first second page

def pageClass (name base : String) : Declaration :=
  { attributes := [], kind := .classType, name, bases := [{ name := base }], render := none }

/-- Two units whose paths differ in case, with a page each. The second page is one through
the first. -/
def pagesOfOneKey : Compilation where
  trees :=
    [ { path := "Home.tpl", source := "",
        types := [pageClass "A" "Page"] },
      { path := "home.tpl", source := "",
        types := [pageClass "B" "A"] } ]
  references := [Module.host]

theorem emit_tagged_error_of_pagesOfOneKey :
    pagesOfOneKey.diagnostics = [] ∧ pagesOfOneKey.Exports Module.pageMarker ∧
      ∃ problems, pagesOfOneKey.tagged.emit "m" = .error problems := by
  have hdiagnostics : pagesOfOneKey.diagnostics = [] := List.isEmpty_iff.mp (by decide +kernel)
  have hexports : pagesOfOneKey.Exports Module.pageMarker :=
    exports_pageMarker (List.mem_singleton_self _)
  refine ⟨hdiagnostics, hexports, (emit_tagged_error_iff "m" hdiagnostics hexports).2.1.mpr ?_⟩
  refine ⟨0, 1, _, _, by omega, rfl, rfl, ?_, ?_, by decide +kernel⟩
  · exact ⟨_, List.mem_singleton_self _, rfl, _, List.mem_singleton_self _, by decide +kernel⟩
  · exact ⟨_, List.mem_singleton_self _, rfl, _, List.mem_singleton_self _, by decide +kernel⟩

end Compilation

end ViewPress
