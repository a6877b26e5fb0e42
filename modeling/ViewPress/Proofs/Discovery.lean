import Mathlib.Data.List.Perm.Subperm
import ViewPress.Proofs.Containment

/-!
# Which templates are found

Discovery goes over all entries below a root, leaves out what is skipped, ignored or not
selected, sorts the rest and looks for paths that have the same lookup key. This file says
what comes of it without any of these steps: `IsTemplate` is a property of a file and its
place in the tree, and discovery answers with the files that have it, in the order of
their paths, or with the groups of those that could not be told apart.

A path to skip counts where the walk comes by it, that is, at the root or below it. A path
above the root is never met, although every file is below it.

Files that have different names have different paths, because a name holds no slash. That
is why the order in which a disk lists its entries cannot be seen in the answer.
-/

namespace ViewPress

open ViewPress.Disk (IsName)

/-! ## Skipped paths -/

namespace Path

theorem names_of_isName {n : Name} (h : IsName n) : names ⟨n⟩ = [n] := by
  obtain ⟨hempty, hslash, hdot, -⟩ := h
  rw [names, split_of_notMem hslash, List.filter_cons_of_pos (by simp [hempty, hdot]),
    List.filter_nil]

theorem components_join_name {p : Path} (hp : p.bytes ≠ []) {n : Name} (h : IsName n) :
    (p.join ⟨n⟩).components = p.components ++ [.name n] := by
  rw [components_join hp (Disk.isAbsolute_of_isName h), names_of_isName h, List.map_singleton,
    ofPiece, if_neg h.2.2.2]

theorem join_ne_nil {p : Path} (hp : p.bytes ≠ []) {n : Name} (h : IsName n) :
    (p.join ⟨n⟩).bytes ≠ [] := by
  obtain ⟨rest, hrest⟩ := bytes_prefix_join (p := p) (Disk.isAbsolute_of_isName h)
  rw [← hrest]
  exact List.append_ne_nil_of_left_ne_nil hp rest

/-- A path of names below another has the components of that other and then the names. -/
theorem components_foldl_join {root : Path} (hroot : root.bytes ≠ []) {names : List Name}
    (hnames : ∀ n ∈ names, IsName n) :
    (names.foldl (fun p n => p.join ⟨n⟩) root).components
      = root.components ++ names.map .name := by
  induction names generalizing root with
  | nil => exact (List.append_nil _).symm
  | cons n names ih =>
      obtain ⟨hn, hnames⟩ := List.forall_mem_cons.mp hnames
      rw [List.foldl_cons, ih (join_ne_nil hroot hn) hnames, components_join_name hroot hn,
        List.append_assoc]
      rfl

end Path

/-- Between a list and a longer one are the list itself and what goes on like the longer. -/
theorem prefix_between_cons_iff {α : Type} {as bs cs : List α} {a : α} :
    (as <+: bs ∧ bs <+: as ++ a :: cs) ↔
      as = bs ∨ (as ++ [a] <+: bs ∧ bs <+: as ++ a :: cs) := by
  constructor
  · rintro ⟨⟨rest, rfl⟩, hbs⟩
    cases rest with
    | nil => exact .inl (List.append_nil as).symm
    | cons b rest =>
        obtain ⟨rfl, -⟩ := List.cons_prefix_cons.mp ((List.prefix_append_right_inj as).mp hbs)
        refine .inr ⟨⟨rest, ?_⟩, hbs⟩
        rw [List.append_assoc]
        rfl
  · rintro (rfl | ⟨has, hbs⟩)
    · exact ⟨List.prefix_refl as, List.prefix_append as _⟩
    · exact ⟨(List.prefix_append as [a]).trans has, hbs⟩

theorem map_filterMap_sublist {α β γ : Type} {f : α → Option β} {g : β → γ} {h : α → γ}
    (hf : ∀ a b, f a = some b → g b = h a) (as : List α) :
    ((as.filterMap f).map g).Sublist (as.map h) := by
  induction as with
  | nil => exact List.Sublist.slnil
  | cons a as ih =>
      cases ha : f a with
      | none =>
          rw [List.filterMap_cons_none ha]
          exact ih.cons (h a)
      | some b =>
          rw [List.filterMap_cons_some ha, List.map_cons, List.map_cons, hf a b ha]
          exact ih.cons_cons (h a)

/-! ## Sorted lists -/

/-- Elements with different texts, sorted by them, come strictly one after another. -/
theorem pairwise_lt_mergeSort {α : Type} (text : α → String) {as : List α}
    (h : as.Pairwise (text · ≠ text ·)) :
    (as.mergeSort fun a b => decide (text a ≤ text b)).Pairwise (text · < text ·) := by
  have htrans (a b c : α) (hab : decide (text a ≤ text b) = true)
      (hbc : decide (text b ≤ text c) = true) : decide (text a ≤ text c) = true :=
    decide_eq_true (String.le_trans (of_decide_eq_true hab) (of_decide_eq_true hbc))
  have htotal (a b : α) : (decide (text a ≤ text b) || decide (text b ≤ text a)) = true := by
    simpa using String.le_total (text a) (text b)
  have hsorted := List.pairwise_mergeSort htrans htotal as
  have hdistinct : (as.mergeSort fun a b => decide (text a ≤ text b)).Pairwise
      (text · ≠ text ·) := ((List.mergeSort_perm as _).pairwise_iff Ne.symm).mpr h
  refine (hsorted.and hdistinct).imp ?_
  rintro a b ⟨hle, hne⟩
  refine Classical.byContradiction fun hlt => hne ?_
  exact String.le_antisymm (of_decide_eq_true hle) (String.not_lt.mp hlt)

theorem nodup_eraseDups (as : List String) : as.eraseDups.Nodup := by
  -- what is left after an element is a filtered tail, so the induction is on the length
  induction hlength : as.length using Nat.strongRecOn generalizing as with
  | ind length ih =>
      cases as with
      | nil => exact List.nodup_nil
      | cons a as =>
          rw [List.eraseDups_cons, List.nodup_cons]
          refine ⟨by simp [List.mem_eraseDups], ih _ ?_ _ rfl⟩
          rw [← hlength, List.length_cons]
          exact Nat.lt_succ_of_le (List.length_filter_le _ as)

/-- Lists in strict order are the same if they have the same elements. -/
theorem eq_of_pairwise_lt {α : Type} (text : α → String) {as bs : List α}
    (has : as.Pairwise (text · < text ·)) (hbs : bs.Pairwise (text · < text ·))
    (h : ∀ a, a ∈ as ↔ a ∈ bs) : as = bs := by
  have hnodup {cs : List α} (hcs : cs.Pairwise (text · < text ·)) : cs.Nodup := by
    refine hcs.imp ?_
    rintro a _ hlt rfl
    exact String.lt_irrefl (text a) hlt
  refine List.Perm.eq_of_pairwise (fun a b _ _ hab hba => ?_) has hbs
    ((List.perm_ext_iff_of_nodup (hnodup has) (hnodup hbs)).mpr h)
  exact absurd (String.lt_trans hab hba) (String.lt_irrefl (text a))

namespace Project

/-- A file is skipped if a path to skip is at or below the root and the file is at or below
that path. -/
theorem isSkipped_iff {skip : List Path} {root : Path} (hroot : root.bytes ≠ [])
    {names : List Name} (hnames : ∀ n ∈ names, IsName n) :
    isSkipped skip root names = true ↔ ∃ s ∈ skip, root.isAbove s = true ∧
      s.isAbove (names.foldl (fun p n => p.join ⟨n⟩) root) = true := by
  induction names generalizing root with
  | nil =>
      simp only [isSkipped, List.any_eq_true, Path.same, Path.isAbove, beq_iff_eq,
        List.isPrefixOf_iff_prefix, List.foldl_nil]
      refine exists_congr fun s => and_congr_right fun _ => ⟨?_, ?_⟩
      · intro h
        rw [h]
        exact ⟨List.prefix_refl _, List.prefix_refl _⟩
      · rintro ⟨h, h'⟩
        exact h.eq_of_length (Nat.le_antisymm h.length_le h'.length_le)
  | cons n names ih =>
      obtain ⟨hn, hrest⟩ := List.forall_mem_cons.mp hnames
      rw [isSkipped, Bool.or_eq_true, ih (Path.join_ne_nil hroot hn) hrest]
      simp only [List.any_eq_true, Path.same, Path.isAbove, beq_iff_eq,
        List.isPrefixOf_iff_prefix, List.foldl_cons]
      rw [Path.components_foldl_join (Path.join_ne_nil hroot hn) hrest,
        Path.components_join_name hroot hn, List.append_assoc, List.singleton_append,
        ← exists_or]
      refine exists_congr fun s => ?_
      rw [← and_or_left, ← prefix_between_cons_iff]

/-! ## Candidates -/

section

variable {d : Disk} {root : Path} {here : List Name} {skip : List Path}

/-- Every file is considered once. -/
theorem nodup_candidates (honce : (d.entries.map Prod.fst).Nodup) :
    (candidates d root here skip).Nodup := by
  have hbelow : ((d.below here).map (here ++ ·.1)).Sublist (d.entries.map Prod.fst) := by
    refine map_filterMap_sublist ?_ d.entries
    rintro ⟨key, e⟩ b hb
    simp only at hb
    split at hb
    · next hstart =>
        cases hb
        exact List.isPrefixOf?_eq_some_iff_append_eq.mp hstart
    · cases hb
  have hcandidates : ((candidates d root here skip).map (here ++ ·)).Sublist
      ((d.below here).map (here ++ ·.1)) := by
    refine map_filterMap_sublist ?_ (d.below here)
    rintro ⟨rest, _ | content⟩ names hnames
    · cases hnames
    · simp only [Option.ite_none_right_eq_some, Option.some_inj] at hnames
      rw [hnames.2]
  have hnodup := honce.sublist (hcandidates.trans hbelow)
  exact List.Pairwise.of_map _ (fun _ _ hne heq => hne (congrArg (here ++ ·) heq)) hnodup

end

end Project

namespace Disk

/-- Where no name occurs twice, the entry of a name is the one that is listed. -/
theorem entry?_eq_some_iff {d : Disk} (honce : (d.entries.map Prod.fst).Nodup)
    {names : List Name} (hne : names ≠ []) {e : Entry} :
    d.entry? names = some e ↔ (names, e) ∈ d.entries := by
  rw [ entry?, if_neg (by simpa using hne)]
  refine ⟨fun h => ?_, lookup_eq_some_of_mem honce⟩
  obtain ⟨before, after, hsplit, -⟩ := List.lookup_eq_some_iff.mp h
  rw [hsplit]
  exact List.mem_append_right before List.mem_cons_self

theorem WellNamed.isName {d : Disk} (h : d.WellNamed) {names : List Name} {e : Entry}
    (hentry : d.entry? names = some e) : ∀ n ∈ names, IsName n := by
  intro n hn
  rw [ entry?, if_neg (by simpa using List.ne_nil_of_mem hn)] at hentry
  obtain ⟨before, after, hsplit, -⟩ := List.lookup_eq_some_iff.mp hentry
  exact h (names, e) (by simp [hsplit]) n hn

/-- Every entry is listed once, and those below a directory have names that are text. -/
structure IsTextTree (d : Disk) (here : List Name) : Prop where
  named : d.WellNamed
  once : (d.entries.map Prod.fst).Nodup
  text : ∀ e ∈ d.below here, ∀ n ∈ e.1, (Text.ofUtf8? n).isSome = true

end Disk

namespace Project

/-! ## Templates -/

/-- The file at the names below the root is a template: it is a regular file, is not
ignored, no path to skip that the walk meets is at or above it, and its relative path is
selected. -/
structure IsTemplateAt (d : Disk) (root : Path) (here : List Name) (pattern : String)
    (exclude : List String) (skip : List Path) (names : List Name) (f : TemplateFile) : Prop where
  path : f.path = names.foldl (fun p n => p.join ⟨n⟩) root
  relative : Text.utf8 f.relative = [Path.slash].intercalate names
  regular : ∃ content, d.entry? (here ++ names) = some (.file content)
  kept : names.getLast? ≠ some ignoredName
  walked : ∀ s ∈ skip, root.isAbove s = true → s.isAbove f.path = false
  selected : Glob.selects pattern f.relative = true
  included : ∀ p ∈ exclude, Glob.selects p f.relative = false

def IsTemplate (d : Disk) (root : Path) (here : List Name) (pattern : String)
    (exclude : List String) (skip : List Path) (f : TemplateFile) : Prop :=
  ∃ names, IsTemplateAt d root here pattern exclude skip names f

section

variable {names : List Name}

theorem exists_templateFile (root : Path)
    (htext : ∀ n ∈ names, (Text.ofUtf8? n).isSome = true) :
    ∃ f, templateFile root names = .ok f := by
  have hparts : ∃ parts, names.mapM Text.ofUtf8? = some parts := by
    induction names with
    | nil => exact ⟨[], rfl⟩
    | cons n names ih =>
        obtain ⟨hn, hnames⟩ := List.forall_mem_cons.mp htext
        obtain ⟨part, hpart⟩ := Option.isSome_iff_exists.mp hn
        obtain ⟨parts, hparts⟩ := ih hnames
        exact ⟨part :: parts, by rw [List.mapM_cons, hpart, hparts]; rfl⟩
  obtain ⟨parts, hparts⟩ := hparts
  simp only [templateFile, hparts]
  exact ⟨_, rfl⟩

theorem templateFile_eq_ok_iff {root : Path} {f : TemplateFile}
    (htext : ∀ n ∈ names, (Text.ofUtf8? n).isSome = true) :
    templateFile root names = .ok f ↔ f.path = names.foldl (fun p n => p.join ⟨n⟩) root ∧
      Text.utf8 f.relative = [Path.slash].intercalate names := by
  refine ⟨templateFile_eq_ok, ?_⟩
  rintro ⟨hpath, hrelative⟩
  obtain ⟨g, hg⟩ := exists_templateFile root htext
  obtain ⟨hpath', hrelative'⟩ := templateFile_eq_ok hg
  obtain rfl : f = g := by
    cases f
    cases g
    simp only at hpath hpath' hrelative hrelative'
    rw [hpath, ← hpath', Text.utf8_injective (hrelative.trans hrelative'.symm)]
  exact hg

/-- A file has no other names than those its relative path spells. -/
theorem names_eq_of_relative_eq {names' : List Name} (hne : names ≠ []) (hne' : names' ≠ [])
    (hnames : ∀ n ∈ names, IsName n) (hnames' : ∀ n ∈ names', IsName n)
    (h : [Path.slash].intercalate names = [Path.slash].intercalate names') : names = names' := by
  rw [← List.splitOn_intercalate Path.slash (fun n hn => (hnames n hn).2.1) hne, h,
    List.splitOn_intercalate Path.slash (fun n hn => (hnames' n hn).2.1) hne']

end

section

variable {d : Disk} {root : Path} {here : List Name} {pattern : String} {exclude : List String}
  {skip : List Path} (hdisk : d.IsTextTree here) (hroot : d.find root = .ok (here, .directory))
include hdisk

theorem of_mem_candidates {names : List Name} (h : names ∈ candidates d root here skip) :
    names ≠ [] ∧ (∀ n ∈ names, IsName n) ∧ ∀ n ∈ names, (Text.ofUtf8? n).isSome = true := by
  obtain ⟨⟨content, hbelow⟩, -⟩ := mem_candidates_iff.mp h
  obtain ⟨hne, hentry⟩ := mem_below_iff.mp hbelow
  exact ⟨hne, fun n hn => hdisk.named _ hentry n (List.mem_append_right here hn),
    hdisk.text _ hbelow⟩

theorem pairwise_relative {found : List TemplateFile}
    (h : (candidates d root here skip).mapM (templateFile root) = .ok found) :
    found.Pairwise (·.relative ≠ ·.relative) := by
  refine pairwise_of_mapM_eq_ok h (nodup_candidates hdisk.once) ?_
  intro names hnames names' hnames' hne f f' hf hf' heq
  obtain ⟨hnil, hname, -⟩ := of_mem_candidates hdisk hnames
  obtain ⟨hnil', hname', -⟩ := of_mem_candidates hdisk hnames'
  refine hne (names_eq_of_relative_eq hnil hnil' hname hname' ?_)
  rw [← (templateFile_eq_ok hf).2, ← (templateFile_eq_ok hf').2, heq]

include hroot

theorem mem_candidates_iff_regular {names : List Name} :
    names ∈ candidates d root here skip ↔
      (∃ content, d.entry? (here ++ names) = some (.file content)) ∧
        names.getLast? ≠ some ignoredName ∧
        ∀ s ∈ skip, root.isAbove s = true →
          s.isAbove (names.foldl (fun p n => p.join ⟨n⟩) root) = false := by
  obtain ⟨hresolve, hdirectory⟩ := Disk.of_find_eq_ok hroot
  have hregular : (∃ content, (names, .file content) ∈ d.below here) ↔
      ∃ content, d.entry? (here ++ names) = some (.file content) := by
    by_cases hne : names = []
    · simp [mem_below_iff, hne, hdirectory]
    · refine exists_congr fun content => ?_
      rw [mem_below_iff, Disk.entry?_eq_some_iff hdisk.once (by simp [hne]), and_iff_right hne]
  rw [mem_candidates_iff, hregular]
  refine and_congr_right ?_
  rintro ⟨content, hcontent⟩
  have hnames : ∀ n ∈ names, IsName n := fun n hn =>
    hdisk.named.isName hcontent n (List.mem_append_right here hn)
  have hbytes := (Disk.exists_walk_of_resolve hresolve).1
  refine and_congr_right fun _ => ?_
  rw [← Bool.not_eq_true, isSkipped_iff hbytes hnames]
  simp only [not_exists, not_and, Bool.not_eq_true]

theorem isTemplate_iff {f : TemplateFile} :
    IsTemplate d root here pattern exclude skip f ↔
      (∃ names ∈ candidates d root here skip, templateFile root names = .ok f) ∧
        isSelected pattern exclude f = true := by
  have hselected : isSelected pattern exclude f = true ↔ Glob.selects pattern f.relative = true ∧
      ∀ p ∈ exclude, Glob.selects p f.relative = false := by
    simp [isSelected]
  rw [hselected]
  constructor
  · rintro ⟨names, h⟩
    have hnames : names ∈ candidates d root here skip :=
      (mem_candidates_iff_regular hdisk hroot).mpr ⟨h.regular, h.kept, h.path ▸ h.walked⟩
    have htext := (of_mem_candidates hdisk hnames).2.2
    exact ⟨⟨names, hnames, (templateFile_eq_ok_iff htext).mpr ⟨h.path, h.relative⟩⟩,
      h.selected, h.included⟩
  · rintro ⟨⟨names, hnames, hf⟩, hselected, hincluded⟩
    obtain ⟨hregular, hkept, hwalked⟩ := (mem_candidates_iff_regular hdisk hroot).mp hnames
    obtain ⟨hpath, hrelative⟩ := templateFile_eq_ok hf
    exact ⟨names, hpath, hrelative, hregular, hkept, hpath ▸ hwalked, hselected, hincluded⟩

variable (pattern exclude skip) in
theorem exists_files : ∃ files : List TemplateFile,
      files.Pairwise (·.relative < ·.relative) ∧
      (∀ f, f ∈ files ↔ IsTemplate d root here pattern exclude skip f) ∧
      discover d root pattern exclude skip
        = if collisions files = [] then .ok files else .error (.collisions (collisions files)) := by
  obtain ⟨found, hfound⟩ : ∃ found,
      (candidates d root here skip).mapM (templateFile root) = .ok found :=
    exists_mapM_eq_ok fun names hnames =>
      exists_templateFile root (of_mem_candidates hdisk hnames).2.2
  refine ⟨(found.filter (isSelected pattern exclude)).mergeSort TemplateFile.le, ?_, ?_, ?_⟩
  · exact pairwise_lt_mergeSort TemplateFile.relative
      ((pairwise_relative hdisk hfound).sublist List.filter_sublist)
  · intro f
    rw [List.mem_mergeSort, List.mem_filter, isTemplate_iff hdisk hroot]
    refine and_congr_left fun _ => ⟨exists_of_mem_mapM hfound, ?_⟩
    rintro ⟨names, hnames, hf⟩
    exact mem_of_mapM_eq_ok hfound hnames hf
  · rw [discover, hroot]
    simp only [hfound, bind, Except.bind]
    split
    · next hnone => rw [if_pos hnone]; rfl
    · next hsome => rw [if_neg hsome]; rfl

end

/-! ## Collisions -/

/-- The groups of the files that share their key with another: one for each key that is
shared, in the order of the keys, with the paths of all files of that key in order. -/
structure AreCollisions (S : TemplateFile → Prop) (groups : List (List String)) : Prop where
  exact : ∀ group ∈ groups, 2 ≤ group.length ∧
    ∃ key, ∀ path, path ∈ group ↔ ∃ f, S f ∧ f.key = key ∧ f.relative = path
  complete : ∀ f g, S f → S g → f ≠ g → f.key = g.key →
    ∃ group ∈ groups, f.relative ∈ group ∧ ∀ other ∈ groups, f.relative ∈ other → other = group
  paths : ∀ group ∈ groups, group.Pairwise (· < ·)
  keys : groups.Pairwise fun group later =>
    ∀ path ∈ group, ∀ path' ∈ later, ViewPath.lookupKey path < ViewPath.lookupKey path'

namespace AreCollisions

variable {S : TemplateFile → Prop} {groups : List (List String)}

/-- There are groups exactly if two files have the same key. -/
theorem eq_nil_iff (h : AreCollisions S groups) :
    groups = [] ↔ ∀ f g, S f → S g → f.key = g.key → f = g := by
  constructor
  · rintro rfl f g hf hg hkey
    refine Classical.byContradiction fun hne => ?_
    obtain ⟨group, hgroup, -⟩ := h.complete f g hf hg hne hkey
    cases hgroup
  · intro hdistinct
    refine List.eq_nil_iff_forall_not_mem.mpr fun group hgroup => ?_
    obtain ⟨hlength, key, hmembers⟩ := h.exact group hgroup
    have hsorted := h.paths group hgroup
    -- the first two paths of the group differ, and so do their files
    rcases group with _ | ⟨p, _ | ⟨q, rest⟩⟩
    · exact absurd hlength (by simp)
    · exact absurd hlength (by simp)
    · obtain ⟨f, hf, hfkey, rfl⟩ := (hmembers p).mp List.mem_cons_self
      obtain ⟨g, hg, hgkey, rfl⟩ := (hmembers q).mp (by simp)
      obtain rfl := hdistinct f g hf hg (hfkey.trans hgkey.symm)
      exact String.lt_irrefl _ ((List.pairwise_cons.mp hsorted).1 _ List.mem_cons_self)

end AreCollisions

section

variable {files : List TemplateFile}

/-- The relative paths of the files of a key. -/
def group (files : List TemplateFile) (key : String) : List String :=
  (files.filter (·.key == key)).map TemplateFile.relative

theorem mem_group_iff {key path : String} :
    path ∈ group files key ↔ ∃ f, f ∈ files ∧ f.key = key ∧ f.relative = path := by
  simp [group, and_assoc]

theorem lookupKey_of_mem_group {key path : String} (h : path ∈ group files key) :
    ViewPath.lookupKey path = key := by
  obtain ⟨f, -, hkey, rfl⟩ := mem_group_iff.mp h
  exact hkey

theorem mem_collisions_iff {paths : List String} :
    paths ∈ collisions files ↔ 2 ≤ paths.length ∧ ∃ key, paths = group files key := by
  simp only [collisions, List.mem_filter, List.mem_map, List.mem_mergeSort, List.mem_eraseDups]
  constructor
  · rintro ⟨⟨key, -, rfl⟩, hlength⟩
    exact ⟨of_decide_eq_true hlength, key, rfl⟩
  · rintro ⟨hlength, key, rfl⟩
    refine ⟨⟨key, ?_, rfl⟩, decide_eq_true hlength⟩
    -- a group with a path in it is that of a file's key
    obtain ⟨path, hpath⟩ := List.exists_mem_of_length_pos (Nat.lt_of_lt_of_le Nat.two_pos hlength)
    obtain ⟨f, hf, hkey, -⟩ := mem_group_iff.mp hpath
    exact ⟨f, hf, hkey⟩

/-- Two files of one key make a group. -/
theorem group_mem_collisions {f g : TemplateFile} (hf : f ∈ files) (hg : g ∈ files) (hne : f ≠ g)
    (hkey : f.key = g.key) : group files f.key ∈ collisions files := by
  have hpair : [f, g].Nodup := by simpa using hne
  have hsubset : [f, g] ⊆ files.filter (·.key == f.key) := by simp [hf, hg, hkey]
  have hlength : 2 ≤ (group files f.key).length := by
    rw [group, List.length_map]
    exact (List.Nodup.subperm hpair hsubset).length_le
  exact mem_collisions_iff.mpr ⟨hlength, f.key, rfl⟩

theorem pairwise_keys :
    ((files.map TemplateFile.key).eraseDups.mergeSort).Pairwise (· < ·) :=
  pairwise_lt_mergeSort id (nodup_eraseDups _)

theorem areCollisions_collisions (hfiles : files.Pairwise (·.relative < ·.relative)) :
    AreCollisions (· ∈ files) (collisions files) where
  exact := by
    intro paths hpaths
    obtain ⟨hlength, key, rfl⟩ := mem_collisions_iff.mp hpaths
    exact ⟨hlength, key, fun path => mem_group_iff⟩
  complete := by
    intro f g hf hg hne hkey
    have hmem : f.relative ∈ group files f.key := mem_group_iff.mpr ⟨f, hf, rfl, rfl⟩
    refine ⟨group files f.key, group_mem_collisions hf hg hne hkey, hmem, ?_⟩
    intro other hother hf
    obtain ⟨-, key, rfl⟩ := mem_collisions_iff.mp hother
    rw [← lookupKey_of_mem_group hf]
    rfl
  paths := by
    intro paths hpaths
    obtain ⟨-, key, rfl⟩ := mem_collisions_iff.mp hpaths
    exact List.pairwise_map.mpr (hfiles.sublist List.filter_sublist)
  keys := by
    rw [collisions]
    refine List.Pairwise.filter _ (List.pairwise_map.mpr (pairwise_keys.imp ?_))
    intro key later hlt path hpath path' hpath'
    rw [lookupKey_of_mem_group hpath, lookupKey_of_mem_group hpath']
    exact hlt

end

end Project

/-! ## The order of entries -/

namespace Disk

variable {d : Disk} {entries : List (List Name × Entry)}

theorem find_congr {d' : Disk} (hentry : ∀ names, d'.entry? names = d.entry? names)
    (hcwd : d'.cwd = d.cwd) (p : Path) : d'.find p = d.find p := by
  have hdirectory : d'.asDirectory = d.asDirectory := by
    funext names
    rw [asDirectory, hentry, asDirectory]
  have hwalk (names here : List Name) : d'.walk here names = d.walk here names := by
    induction names generalizing here with
    | nil => rfl
    | cons n names ih =>
        rw [walk_cons, walk_cons, hdirectory]
        simp only [ih]
  rw [find, find, resolve, resolve, hcwd]
  simp only [hwalk, hentry]

theorem entry?_perm (honce : (d.entries.map Prod.fst).Nodup) (h : entries.Perm d.entries)
    (names : List Name) : entry? { d with entries } names = d.entry? names := by
  have honce' : (entries.map Prod.fst).Nodup := (h.map Prod.fst).nodup_iff.mpr honce
  by_cases hne : names = []
  · rw [ entry?, entry?, hne]
    rfl
  · refine Option.ext fun e => ?_
    rw [entry?_eq_some_iff honce hne, entry?_eq_some_iff honce' hne]
    exact h.mem_iff

theorem IsTextTree.perm {here : List Name} (hdisk : d.IsTextTree here)
    (h : entries.Perm d.entries) : IsTextTree { d with entries } here where
  named e he := hdisk.named e (h.mem_iff.mp he)
  once := (h.map Prod.fst).nodup_iff.mpr hdisk.once
  text := by
    rintro ⟨names, e⟩ he
    obtain ⟨hne, hentry⟩ := Project.mem_below_iff.mp he
    exact hdisk.text (names, e) (Project.mem_below_iff.mpr ⟨hne, h.mem_iff.mp hentry⟩)

end Disk

namespace Project

section

variable {d : Disk} {root : Path} {here : List Name} {pattern : String} {exclude : List String}
  {skip : List Path}

theorem isTemplate_congr {d' : Disk} (hentry : ∀ names, d'.entry? names = d.entry? names)
    {f : TemplateFile} : IsTemplate d' root here pattern exclude skip f ↔
      IsTemplate d root here pattern exclude skip f := by
  refine exists_congr fun names => ⟨?_, ?_⟩
  · intro h
    exact { h with regular := hentry (here ++ names) ▸ h.regular }
  · intro h
    exact { h with regular := (hentry (here ++ names)).symm ▸ h.regular }

/-- It does not show in the answer in what order a disk lists its entries. -/
theorem discover_perm (hdisk : d.IsTextTree here) (hroot : d.find root = .ok (here, .directory))
    {entries : List (List Name × Entry)} (h : entries.Perm d.entries) :
    discover { d with entries } root pattern exclude skip
      = discover d root pattern exclude skip := by
  have hentry := Disk.entry?_perm hdisk.once h
  have hroot' : Disk.find { d with entries } root = .ok (here, .directory) :=
    (Disk.find_congr hentry rfl root).trans hroot
  obtain ⟨files, hsorted, hfiles, hanswer⟩ := exists_files pattern exclude skip hdisk hroot
  obtain ⟨files', hsorted', hfiles', hanswer'⟩ := exists_files pattern exclude skip
    (hdisk.perm h) hroot'
  have heq : files' = files := by
    refine eq_of_pairwise_lt TemplateFile.relative hsorted' hsorted fun f => ?_
    rw [hfiles', hfiles]
    exact isTemplate_congr hentry
  rw [hanswer, hanswer', heq]

end

/-! ## The answer -/

/-- An application with two templates of one key. -/
def collidingApp : Disk where
  entries :=
    [([Text.utf8 "app"], .directory),
      ([Text.utf8 "app", Text.utf8 "home"], .directory),
      ([Text.utf8 "app", Text.utf8 "home", Text.utf8 "index.tpl"], .file []),
      ([Text.utf8 "app", Text.utf8 "publish"], .directory),
      ([Text.utf8 "app", Text.utf8 "publish", Text.utf8 "Old.tpl"], .file []),
      ([Text.utf8 "app", Text.utf8 "Home"], .directory),
      ([Text.utf8 "app", Text.utf8 "Home", Text.utf8 "Index.tpl"], .file []),
      ([Text.utf8 "app", Text.utf8 "Home", ignoredName], .file [])]

/-- The file of a relative path in the application. -/
def appFile (relative : String) : TemplateFile :=
  { relative, path := ⟨Text.utf8 ("/app/" ++ relative)⟩ }

/-- An application in a folder that is to be skipped. -/
def enclosedApp : Disk where
  entries :=
    [([Text.utf8 "app"], .directory),
      ([Text.utf8 "app", Text.utf8 "views"], .directory),
      ([Text.utf8 "app", Text.utf8 "views", Text.utf8 "a.tpl"], .file (Text.utf8 "x"))]

end Project

end ViewPress
