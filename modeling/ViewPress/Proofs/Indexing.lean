import ViewPress.View.Index

/-!
# What an index finds

An index can be built of a module exactly when no two of the module's view paths have
the same lookup key. It then holds every tagged type of the module under the key of
its path and nothing else, so a request finds the one type that has the key asked for.
Otherwise the first type that comes too late for its key is reported, together with the
type before it that has the key.

All this is said of any module, also of one that no compilation would give: types may
have the same name, carry several `ViewPath` attributes, or one without arguments.
-/

namespace ViewPress

open ViewPath (lookupKey)

theorem lookup_eq_none_iff_notMem {β : Type} {entries : List (String × β)} {key : String} :
    entries.lookup key = none ↔ key ∉ entries.map Prod.fst := by
  rw [List.lookup_eq_none_iff]
  constructor
  · intro h hkey
    obtain ⟨e, he, rfl⟩ := List.mem_map.mp hkey
    exact absurd (h e he) (by simp)
  · intro h e he
    have hne : key ≠ e.1 := fun heq => h (List.mem_map.mpr ⟨e, he, heq.symm⟩)
    simpa using hne

/-- Where no key occurs twice, every entry is found under its key. -/
theorem lookup_eq_some_of_mem {κ β : Type} [BEq κ] [LawfulBEq κ] {entries : List (κ × β)}
    {key : κ} {value : β} (hnodup : (entries.map Prod.fst).Nodup)
    (h : (key, value) ∈ entries) : entries.lookup key = some value := by
  induction entries with
  | nil => cases h
  | cons e rest ih =>
      rw [List.map_cons, List.nodup_cons] at hnodup
      rcases List.mem_cons.mp h with rfl | h
      · rw [List.lookup_cons_self]
      · have hne : (key == e.1) = false := by
          rw [beq_eq_false_iff_ne]
          rintro rfl
          exact hnodup.1 (List.mem_map.mpr ⟨_, h, rfl⟩)
        rw [List.lookup_cons, hne]
        exact ih hnodup.2 h

namespace ViewIndex

/-- The entry of a tagged type. -/
def entry (module : String) (tagged : String × TypeDef) : String × CompiledView :=
  (lookupKey tagged.1, { module, type := tagged.2 })

theorem addTypes_eq_ok {module : String} {entries : List (String × CompiledView)}
    {tagged : List (String × TypeDef)}
    (h : (entries.map Prod.fst ++ tagged.map fun t => lookupKey t.1).Nodup) :
    addTypes module ⟨entries⟩ tagged = .ok ⟨entries ++ tagged.map (entry module)⟩ := by
  induction tagged generalizing entries with
  | nil => rw [addTypes, List.map_nil, List.append_nil]
  | cons t rest ih =>
      obtain ⟨path, type⟩ := t
      have hfresh : entries.lookup (lookupKey path) = none := by
        rw [lookup_eq_none_iff_notMem]
        intro hmem
        exact (List.nodup_append.mp h).2.2 _ hmem _ List.mem_cons_self rfl
      have hmoved : ((entries ++ [entry module (path, type)]).map Prod.fst
          ++ rest.map fun t => lookupKey t.1).Nodup := by
        rw [List.map_append, List.append_assoc]
        exact h
      have hrest := ih hmoved
      rw [List.append_assoc] at hrest
      simp only [addTypes, hfresh]
      exact hrest

theorem nodup_of_addTypes_eq_ok {module : String} {entries : List (String × CompiledView)}
    {tagged : List (String × TypeDef)} {index : ViewIndex} (hentries : (entries.map Prod.fst).Nodup)
    (h : addTypes module ⟨entries⟩ tagged = .ok index) :
    (entries.map Prod.fst ++ tagged.map fun t => lookupKey t.1).Nodup := by
  induction tagged generalizing entries with
  | nil => rwa [List.map_nil, List.append_nil]
  | cons t rest ih =>
      obtain ⟨path, type⟩ := t
      simp only [addTypes] at h
      split at h
      · cases h
      · next hfresh =>
          have hentry : ((entries ++ [entry module (path, type)]).map Prod.fst).Nodup := by
            rw [List.map_append, List.nodup_append]
            refine ⟨hentries, by simp, ?_⟩
            rintro key hkey _ (_ | ⟨_, ⟨⟩⟩) rfl
            exact lookup_eq_none_iff_notMem.mp hfresh hkey
          have hrest := ih hentry h
          rw [List.map_append, List.append_assoc] at hrest
          exact hrest

/-- An index can be built exactly when no two view paths have the same key. -/
theorem build_ok_iff {m : Module} :
    (∃ index, build m = .ok index) ↔ (m.taggedTypes.map fun t => lookupKey t.1).Nodup := by
  constructor
  · rintro ⟨index, h⟩
    have hempty : (([] : List (String × CompiledView)).map Prod.fst).Nodup := List.nodup_nil
    exact nodup_of_addTypes_eq_ok hempty h
  · exact fun h => ⟨_, addTypes_eq_ok h⟩

theorem build_eq_ok {m : Module} (h : (m.taggedTypes.map fun t => lookupKey t.1).Nodup) :
    build m = .ok ⟨m.taggedTypes.map (entry m.name)⟩ :=
  addTypes_eq_ok h

end ViewIndex

/-! ## Tagged types -/

namespace TypeDef

/-- The first `ViewPath` attribute of the type has the path as its first argument. -/
def Tagged (t : TypeDef) (path : String) : Prop :=
  ∃ before a after rest, t.attributes = before ++ a :: after ∧
    (∀ b ∈ before, b.name ≠ Module.viewPathAttribute) ∧
    a.name = Module.viewPathAttribute ∧ a.args = path :: rest

/-- The type is tagged with a path that has the key. -/
def HasKey (t : TypeDef) (key : String) : Prop :=
  ∃ path, t.Tagged path ∧ lookupKey path = key

theorem viewPath?_eq_some_iff {t : TypeDef} {path : String} :
    t.viewPath? = some path ↔ t.Tagged path := by
  rw [viewPath?, Tagged]
  constructor
  · intro h
    split at h
    · next a ha =>
        obtain ⟨hname, before, after, hsplit, hbefore⟩ := List.find?_eq_some_iff_append.mp ha
        obtain ⟨rest, hargs⟩ := List.head?_eq_some_iff.mp h
        exact ⟨before, a, after, rest, hsplit, by simpa using hbefore, by simpa using hname, hargs⟩
    · cases h
  · rintro ⟨before, a, after, rest, hsplit, hbefore, hname, hargs⟩
    have ha : t.attributes.find? (·.name == Module.viewPathAttribute) = some a :=
      List.find?_eq_some_iff_append.mpr
        ⟨by simpa using hname, before, after, hsplit, by simpa using hbefore⟩
    simp only [ha, hargs, List.head?_cons]

theorem hasKey_iff {t : TypeDef} {key : String} :
    t.HasKey key ↔ t.viewPath?.map lookupKey = some key := by
  simp only [HasKey, Option.map_eq_some_iff, viewPath?_eq_some_iff]

instance (t : TypeDef) (key : String) : Decidable (t.HasKey key) :=
  decidable_of_iff _ hasKey_iff.symm

/-- The type with its path, if it has one. -/
def tagged? (t : TypeDef) : Option (String × TypeDef) :=
  t.viewPath?.map fun path => (path, t)

theorem tagged?_eq_some {t : TypeDef} {path : String} (h : t.Tagged path) :
    t.tagged? = some (path, t) := by
  rw [tagged?, viewPath?_eq_some_iff.mpr h, Option.map_some]

/-- No two of the types are tagged with paths of one key. -/
def DistinctKeys (types : List TypeDef) : Prop :=
  types.Pairwise fun s t => ∀ key, s.HasKey key → ¬ t.HasKey key

theorem distinctKeys_iff {types : List TypeDef} :
    DistinctKeys types ↔ ((types.filterMap tagged?).map fun t => lookupKey t.1).Nodup := by
  rw [List.map_filterMap, List.Nodup, List.pairwise_filterMap, DistinctKeys]
  refine List.Pairwise.iff fun {s t} => ?_
  simp only [tagged?, Option.map_map, Function.comp_def, ← hasKey_iff]
  constructor
  · rintro h key hs _ ht rfl
    exact h key hs ht
  · intro h key hs ht
    exact h key hs key ht rfl

end TypeDef

open TypeDef (DistinctKeys distinctKeys_iff)

theorem Module.taggedTypes_eq (m : Module) : m.taggedTypes = m.types.filterMap TypeDef.tagged? :=
  rfl

namespace ViewIndex

/-! ## Requests -/

/-- Where no key occurs twice, a look-up finds all entries of its key. -/
theorem toList_lookup {β : Type} {entries : List (String × β)}
    (hnodup : (entries.map Prod.fst).Nodup) (key : String) :
    (entries.lookup key).toList = (entries.filter (·.1 = key)).map Prod.snd := by
  induction entries with
  | nil => rfl
  | cons e rest ih =>
      rw [List.map_cons, List.nodup_cons] at hnodup
      by_cases hkey : e.1 = key
      · have hrest : rest.filter (·.1 = key) = [] := by
          rw [List.filter_eq_nil_iff]
          intro e' he' hkey'
          rw [hkey, ← of_decide_eq_true hkey'] at hnodup
          exact hnodup.1 (List.mem_map.mpr ⟨e', he', rfl⟩)
        rw [List.filter_cons_of_pos (by simpa using hkey), hrest, ← hkey, List.lookup_cons_self]
        rfl
      · rw [List.filter_cons_of_neg (by simpa using hkey), ← ih hnodup.2, List.lookup_cons,
          beq_false_of_ne (Ne.symm hkey)]

theorem map_filter_entry (module key : String) (types : List TypeDef) :
    (((types.filterMap TypeDef.tagged?).map (entry module)).filter (·.1 = key)).map Prod.snd
      = (types.filter (·.HasKey key)).map fun type => { module, type } := by
  induction types with
  | nil => rfl
  | cons t types ih =>
      have hkey : t.HasKey key ↔ t.viewPath?.map lookupKey = some key := TypeDef.hasKey_iff
      cases hpath : t.viewPath? with
      | none =>
          rw [hpath] at hkey
          rw [List.filterMap_cons_none (by rw [TypeDef.tagged?, hpath, Option.map_none]), ih,
            List.filter_cons_of_neg (by simp [hkey])]
      | some path =>
          rw [hpath, Option.map_some, Option.some_inj] at hkey
          rw [List.filterMap_cons_some (by rw [TypeDef.tagged?, hpath, Option.map_some]),
            List.map_cons]
          by_cases hsame : lookupKey path = key
          · rw [List.filter_cons_of_pos (by simp [entry, hsame]), List.map_cons, ih,
              List.filter_cons_of_pos (by simp [hkey, hsame]), List.map_cons]
            rfl
          · rw [List.filter_cons_of_neg (by simp [entry, hsame]), ih,
              List.filter_cons_of_neg (by simp [hkey, hsame])]

/-! ## Clashes -/

theorem addTypes_append (module : String) (index : ViewIndex) (as bs : List (String × TypeDef)) :
    addTypes module index (as ++ bs)
      = addTypes module index as >>= fun index => addTypes module index bs := by
  induction as generalizing index with
  | nil => rfl
  | cons a as ih =>
      rw [List.cons_append, addTypes, addTypes]
      cases index.entries.lookup (lookupKey a.1) with
      | none => exact ih _
      | some taken => rfl

/-- The second type comes too late: its path has the key of the first, which is before it, and
up to there no key occurs twice. -/
def Clash (types : List TypeDef) (first second : TypeDef) (path : String) : Prop :=
  ∃ before after, types = before ++ second :: after ∧ DistinctKeys before ∧
    first ∈ before ∧ second.Tagged path ∧ first.HasKey (lookupKey path)

theorem build_eq_error_of_clash {m : Module} {first second : TypeDef} {path : String}
    (h : Clash m.types first second path) :
    build m = .error { path, first := first.name, second := second.name } := by
  obtain ⟨before, after, hsplit, hdistinct, hfirst, hsecond, path', hpath', hkey⟩ := h
  have hnodup := distinctKeys_iff.mp hdistinct
  have htagged : m.taggedTypes = before.filterMap TypeDef.tagged? ++ (path, second) ::
      after.filterMap TypeDef.tagged? := by
    rw [Module.taggedTypes_eq, hsplit, List.filterMap_append,
      List.filterMap_cons_some (TypeDef.tagged?_eq_some hsecond)]
  have hentries : ((before.filterMap TypeDef.tagged?).map (entry m.name)).lookup (lookupKey path)
      = some { module := m.name, type := first } := by
    refine lookup_eq_some_of_mem (by rw [List.map_map]; exact hnodup) ?_
    refine List.mem_map.mpr ⟨(path', first), ?_, by rw [entry, hkey]⟩
    exact List.mem_filterMap.mpr ⟨first, hfirst, TypeDef.tagged?_eq_some hpath'⟩
  have hbefore : addTypes m.name ⟨[]⟩ (before.filterMap TypeDef.tagged?)
      = .ok ⟨(before.filterMap TypeDef.tagged?).map (entry m.name)⟩ := addTypes_eq_ok hnodup
  rw [build, htagged, addTypes_append, hbefore]
  simp only [bind, Except.bind, addTypes, hentries]

theorem exists_hasKey {before : List TypeDef} {t : TypeDef} (hbefore : DistinctKeys before)
    (h : ¬ DistinctKeys (before ++ [t])) :
    ∃ first ∈ before, ∃ key, first.HasKey key ∧ t.HasKey key := by
  refine Classical.byContradiction fun hnone => h ?_
  refine List.pairwise_append.mpr ⟨hbefore, List.pairwise_singleton _ t, ?_⟩
  intro first hfirst _ ht key hkey hkey'
  rw [List.mem_singleton.mp ht] at hkey'
  exact hnone ⟨first, hfirst, key, hkey, hkey'⟩

theorem exists_clash_append {before types : List TypeDef} (hbefore : DistinctKeys before)
    (h : ¬ DistinctKeys (before ++ types)) :
    ∃ first second path, Clash (before ++ types) first second path := by
  induction types generalizing before with
  | nil => exact absurd (by rwa [List.append_nil]) h
  | cons t types ih =>
      rw [← List.singleton_append, ← List.append_assoc] at h
      by_cases ht : DistinctKeys (before ++ [t])
      · rw [← List.singleton_append, ← List.append_assoc]
        exact ih ht h
      · obtain ⟨first, hfirst, key, hkey, path, hpath, rfl⟩ := exists_hasKey hbefore ht
        exact ⟨first, t, path, before, types, rfl, hbefore, hfirst, hpath, hkey⟩

/-- What cannot be indexed has a clash, and the clash is what is reported. -/
theorem build_eq_error_iff {m : Module} {e : DuplicatePath} :
    build m = .error e ↔ ∃ first second path, Clash m.types first second path ∧
      e = { path, first := first.name, second := second.name } := by
  constructor
  · intro herror
    have hkeys : ¬ DistinctKeys m.types := by
      intro hdistinct
      have hok : build m = _ := build_eq_ok (distinctKeys_iff.mp hdistinct)
      cases herror.symm.trans hok
    have hempty : DistinctKeys [] := List.Pairwise.nil
    obtain ⟨first, second, path, hclash⟩ := exists_clash_append hempty hkeys
    exact ⟨first, second, path, hclash,
      Except.error.inj (herror.symm.trans (build_eq_error_of_clash hclash))⟩
  · rintro ⟨first, second, path, hclash, rfl⟩
    exact build_eq_error_of_clash hclash

/-- An index can be built of a module exactly when the keys of its tagged types are pairwise
distinct. It has one entry for each of them, and a request finds all types that have its
key, of which there is one at most. If it cannot be built, the first type whose key was
taken is named, and the type before it that has the key. -/
theorem build_finds_tagged_types (m : Module) :
    ((∃ index, build m = .ok index) ↔ DistinctKeys m.types) ∧
      (∀ index, build m = .ok index →
        index.size = m.taggedTypes.length ∧
        ∀ request, (index.get? request).toList =
          (m.types.filter (·.HasKey (lookupKey request))).map fun type =>
            { module := m.name, type }) ∧
      ∀ e, build m = .error e ↔ ∃ first second path, Clash m.types first second path ∧
        e = { path, first := first.name, second := second.name } := by
  refine ⟨build_ok_iff.trans distinctKeys_iff.symm, ?_, fun e => build_eq_error_iff⟩
  intro index hindex
  have hnodup := build_ok_iff.mp ⟨index, hindex⟩
  obtain rfl := Except.ok.inj ((build_eq_ok hnodup).symm.trans hindex)
  refine ⟨List.length_map _, fun request => ?_⟩
  rw [get?, toList_lookup (by rw [List.map_map]; exact hnodup)]
  exact map_filter_entry m.name (lookupKey request) m.types

end ViewIndex

end ViewPress
