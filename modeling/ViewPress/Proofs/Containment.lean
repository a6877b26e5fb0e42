import ViewPress.Proofs.Requests

/-!
# Requests stay below the content root

A request is text from outside, and it decides which file is opened. Reading it takes
away what would make its path absolute, and a path that leads up anywhere is refused
before anything is opened. So the file that is opened is the content root followed by a
relative path of names and dots, which neither its components nor the disk can tell from
a path below the content root.

That the file is the only thing a request depends on is said without looking into the
engine: two disks that agree on it give the same answer, and a request that is refused
has the same answer on every disk.
-/

namespace ViewPress

/-- A byte of ASCII stands for its own character only. -/
theorem Text.toNat_eq_of_mem_utf8EncodeChar {c : Char} {b : UInt8}
    (hb : b ∈ String.utf8EncodeChar c) (hascii : b.toNat < 0x80) : c.toNat = b.toNat := by
  by_cases hc : c.toNat < 0x80
  · rw [utf8EncodeChar_of_lt hc] at hb
    rw [List.mem_singleton.mp hb]
    exact (UInt8.toNat_ofNat_of_lt' (Nat.lt_trans hc (by decide))).symm
  · exact absurd (le_of_mem_utf8EncodeChar (Nat.le_of_not_lt hc) hb) (Nat.not_le_of_lt hascii)

/-! ## Components of relative paths -/

namespace Path

theorem components_of_relative {p : Path} (h : p.isAbsolute = false) :
    p.components = if (split p.bytes).head? = some dot
      then .current :: p.names.map ofPiece else p.names.map ofPiece := by
  rw [components, if_neg (by simp [h])]
  rfl

theorem slash_notMem_of_mem_split {bs : List UInt8} {n : Name} (h : n ∈ split bs) : slash ∉ n := by
  induction bs generalizing n with
  | nil =>
      obtain rfl := List.mem_singleton.mp h
      exact List.not_mem_nil
  | cons b bs ih =>
      by_cases hb : b = slash
      · rw [hb, split, if_pos (beq_self_eq_true slash)] at h
        rcases List.mem_cons.mp h with rfl | h
        · exact List.not_mem_nil
        · exact ih h
      · obtain ⟨m, ms, hms⟩ := List.exists_cons_of_ne_nil (split_ne_nil bs)
        rw [split_cons_of_ne hb, hms, List.modifyHead_cons] at h
        rcases List.mem_cons.mp h with rfl | h
        · have hm : slash ∉ m := ih (by rw [hms]; exact List.mem_cons_self)
          rw [List.mem_cons, not_or]
          exact ⟨Ne.symm hb, hm⟩
        · exact ih (by rw [hms]; exact List.mem_cons_of_mem m h)

/-- A relative path has no components but a dot in front, double dots, and names that a
directory can hold. -/
theorem mem_components_of_relative {p : Path} (h : p.isAbsolute = false) {c : Component}
    (hc : c ∈ p.components) :
    c = .current ∨ c = .parent ∨ ∃ n, Disk.IsName n ∧ c = .name n := by
  have hnames : ∀ c ∈ p.names.map ofPiece, c = .parent ∨ ∃ n, Disk.IsName n ∧ c = .name n := by
    intro c hc
    obtain ⟨n, hn, rfl⟩ := List.mem_map.mp hc
    obtain ⟨hsplit, hn⟩ := List.mem_filter.mp hn
    rw [decide_eq_true_iff] at hn
    rw [ofPiece]
    split
    · exact .inl rfl
    · next hup => exact .inr ⟨n, ⟨hn.1, slash_notMem_of_mem_split hsplit, hn.2, hup⟩, rfl⟩
  rw [components_of_relative h] at hc
  split at hc
  · rcases List.mem_cons.mp hc with rfl | hc
    · exact .inl rfl
    · exact .inr (hnames c hc)
  · exact .inr (hnames c hc)

/-- The components of joined paths are those of the first and then the names of the other. -/
theorem components_join {p q : Path} (hp : p.bytes ≠ []) (hrelative : q.isAbsolute = false) :
    (p.join q).components = p.components ++ q.names.map ofPiece := by
  have hsplit : ∃ front, (split p.bytes = front ∨ split p.bytes = front ++ [[]]) ∧
      split (p.join q).bytes = front ++ split q.bytes ∧ front ≠ [] := by
    have hempty : p.bytes.isEmpty = false := by simpa using hp
    by_cases hslash : p.bytes.getLast? = some slash
    · obtain ⟨as, has⟩ := List.getLast?_eq_some_iff.mp hslash
      refine ⟨split as, .inr (by rw [has, split_append_slash]; rfl), ?_, split_ne_nil as⟩
      rw [← split_append_slash]
      simp [join, hrelative, has]
    · refine ⟨split p.bytes, .inl rfl, ?_, split_ne_nil p.bytes⟩
      rw [← split_append_slash]
      simp [join, hrelative, hslash, hempty]
  obtain ⟨front, hfront, hjoin, hne⟩ := hsplit
  have hnames : (p.join q).names = p.names ++ q.names := by
    rw [names, hjoin, List.filter_append, names, names]
    rcases hfront with hfront | hfront <;> rw [hfront]
    rw [List.filter_append]
    exact congrArg (· ++ _) (List.append_nil _).symm
  have hhead : (split (p.join q).bytes).head? = (split p.bytes).head? := by
    obtain ⟨n, ns, rfl⟩ := List.exists_cons_of_ne_nil hne
    rcases hfront with hfront | hfront <;> rw [hjoin, hfront] <;> rfl
  have habsolute : (p.join q).isAbsolute = p.isAbsolute := isAbsolute_join hp hrelative
  have hcomponents (r : Path) : r.components =
      if r.isAbsolute then .root :: r.names.map ofPiece
      else if (split r.bytes).head? = some dot then .current :: r.names.map ofPiece
      else r.names.map ofPiece := rfl
  rw [hcomponents, hcomponents, habsolute, hhead, hnames, List.map_append]
  split
  · rfl
  · split <;> rfl

/-- A relative path that is joined to another stays at or below it. -/
theorem isAbove_join (p : Path) {q : Path} (hrelative : q.isAbsolute = false) :
    p.isAbove (p.join q) = true := by
  rw [isAbove, List.isPrefixOf_iff_prefix]
  by_cases hp : p.bytes = []
  · have hnone : p.components = [] := by
      rw [components_of_relative (by rw [isAbsolute, hp]; rfl), names, hp]
      rfl
    rw [hnone]
    exact List.nil_prefix
  · rw [components_join hp hrelative]
    exact List.prefix_append _ _

end Path

/-! ## Requests -/

namespace ViewEngine

theorem isContained_iff {p : Path} (h : p.isAbsolute = false) :
    isContained p = true ↔ p.components ≠ [] ∧ .parent ∉ p.components := by
  rw [isContained, Bool.and_eq_true, List.all_eq_true]
  refine and_congr (by simp) ⟨fun hall hup => ?_, fun hup c hc => ?_⟩
  · have hparent := hall .parent hup
    cases hparent
  · rcases Path.mem_components_of_relative h hc with rfl | rfl | ⟨n, -, rfl⟩
    · rfl
    · exact absurd hc hup
    · rfl

/-- The relative path of a request, to be joined to the content root. -/
def relativePath (request : String) : Path :=
  Path.ofString (requested request)

/-- Reading a request takes all slashes from its front. -/
theorem isAbsolute_relativePath (request : String) :
    (relativePath request).isAbsolute = false := by
  have hhead : (requested request).toList.head? ≠ some '/' := by
    rw [toList_requested, ViewPath.relative]
    intro hslash
    have hnot := List.head?_dropWhile_not (· == '/')
      (ViewPath.dropHome (ViewPath.forwardSlashes request.toList))
    rw [hslash] at hnot
    cases hnot
  rw [Path.isAbsolute, relativePath, Path.ofString, Text.utf8_eq]
  cases hcs : (requested request).toList with
  | nil => rfl
  | cons c cs =>
      rw [hcs] at hhead
      have hc : c ≠ '/' := fun heq => hhead (congrArg some heq)
      rw [List.flatMap_cons, List.head?_append_of_ne_nil _ (String.utf8EncodeChar_ne_nil)]
      rw [beq_eq_false_iff_ne]
      intro hslash
      have hnat := Text.toNat_eq_of_mem_utf8EncodeChar (List.mem_of_head? hslash) (by decide)
      exact hc (Char.toNat_inj.mp hnat)

theorem templatePath?_eq_some_iff (e : ViewEngine) (request : String) (file : Path) :
    e.templatePath? request = some file ↔
      file = e.contentRoot.join (relativePath request) ∧
      (relativePath request).components ≠ [] ∧
      .parent ∉ (relativePath request).components := by
  rw [← isContained_iff (isAbsolute_relativePath request), templatePath?, ← relativePath]
  split
  · next h => simp [h, eq_comm]
  · next h => simp [h]

/-- What a request is answered depends on the disk through the file that is opened only. -/
theorem compileOnDemand_congr {e : ViewEngine} {request : String} {d d' : Disk}
    (h : ∀ file ∈ e.templatePath? request, d.find file = d'.find file) :
    e.compileOnDemand d request = e.compileOnDemand d' request := by
  unfold compileOnDemand
  cases hfile : e.templatePath? request with
  | none => rfl
  | some file => simp only [h file hfile]

/-- The file that is opened for a request is the content root followed by the relative path
of the request. It is opened exactly if that path has components, all of them dots and
names. The file then is below the content root by its components, and what the disk finds
there is below what it finds at the content root. The answer depends on nothing else of
the disk. A request whose relative path has a double dot or no component is not found,
and nothing is opened for it. -/
theorem compileOnDemand_opens_below_contentRoot (e : ViewEngine) (request : String) :
    (∀ file, e.templatePath? request = some file ↔
      file = e.contentRoot.join (relativePath request) ∧
      (relativePath request).components ≠ [] ∧
      ∀ c ∈ (relativePath request).components, c = .current ∨ ∃ n, Disk.IsName n ∧ c = .name n) ∧
      (∀ file ∈ e.templatePath? request,
        e.contentRoot.isAbove file = true ∧
        (∀ (d : Disk) root names, d.resolve e.contentRoot = .ok root → d.resolve file = .ok names →
          root <+: names) ∧
        ∀ d d' : Disk, d.find file = d'.find file →
          e.compileOnDemand d request = e.compileOnDemand d' request) ∧
      ((relativePath request).components = [] ∨ .parent ∈ (relativePath request).components →
        e.templatePath? request = none ∧
        ∀ d, e.compileOnDemand d request = .error (.notFound request)) := by
  have hrelative := isAbsolute_relativePath request
  refine ⟨fun file => ?_, fun file hfile => ⟨?_, ?_, ?_⟩, fun hrefused => ?_⟩
  · rw [templatePath?_eq_some_iff]
    refine and_congr_right fun _ => and_congr_right fun _ => ⟨fun hup c hc => ?_, fun hall hup => ?_⟩
    · rcases Path.mem_components_of_relative hrelative hc with hc' | rfl | hc'
      · exact .inl hc'
      · exact absurd hc hup
      · exact .inr hc'
    · rcases hall .parent hup with hc | ⟨n, -, hc⟩ <;> cases hc
  · obtain ⟨rfl, -⟩ := (templatePath?_eq_some_iff e request file).mp hfile
    exact Path.isAbove_join e.contentRoot hrelative
  · intro d root names hroot hnames
    obtain ⟨rfl, hcontained⟩ := (templatePath?_eq_some_iff e request file).mp hfile
    rw [← isContained_iff hrelative] at hcontained
    obtain ⟨-, hsteps, hup⟩ := steps_of_isContained hcontained
    obtain ⟨hne, -, -⟩ := Disk.exists_walk_of_resolve hroot
    obtain ⟨here, hhere, hwalk⟩ := Disk.exists_resolve_of_join hne hrelative hsteps hnames
    obtain rfl := Except.ok.inj (hroot.symm.trans hhere)
    rw [Disk.eq_append_of_walk hup hwalk]
    exact List.prefix_append root _
  · intro d d' hfind
    refine compileOnDemand_congr fun other hother => ?_
    obtain rfl := Option.some.inj (hfile.symm.trans hother)
    exact hfind
  · have hnone : e.templatePath? request = none := by
      rw [Option.eq_none_iff_forall_ne_some]
      intro file hfile
      obtain ⟨-, hne, hup⟩ := (templatePath?_eq_some_iff e request file).mp hfile
      exact hrefused.elim hne hup
    refine ⟨hnone, fun d => ?_⟩
    unfold compileOnDemand
    rw [hnone]

end ViewEngine

end ViewPress
