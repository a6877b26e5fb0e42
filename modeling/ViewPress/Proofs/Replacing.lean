import ViewPress.Proofs.Folders

/-!
# Replacing a file as a whole

A file is replaced by filling its temporary sibling and moving that over it. Whether this
succeeds is known before it starts: the disk must let it happen, and neither of the two
names may be a directory. If it does not, the file is as it was; the sibling is then gone,
or as it was, provided that the disk lets go of what could be created.
-/

namespace ViewPress.Disk

open ViewPress.Path (slash)

/-- Whether nothing is left of what was done to an entry: it is gone or as it was. -/
def Settled (d d' : Disk) (names : List Name) : Prop :=
  d'.entry? names = none ∨ d'.entry? names = d.entry? names

namespace Settled

variable {d d' d'' : Disk} {names : List Name}

theorem trans (h : d.Settled d' names) (h' : d'.Settled d'' names) : d.Settled d'' names := by
  rcases h' with hgone | hkept
  · exact .inl hgone
  · rcases h with hgone | hkept'
    · exact .inl (hkept.trans hgone)
    · exact .inr (hkept.trans hkept')

end Settled

/-! ## Removing -/

section

variable {d : Disk} {p : Path} {names : List Name}

theorem removeFile_of_resolve (h : d.resolve p = .ok names) :
    d.removeFile p = match d.entry? names with
      | some (.file _) => (d.refusal .remove names).map fun _ => d.erase names
      | some .directory => .error .isADirectory
      | none => .error .notFound := by
  rw [removeFile, find_of_resolve h]
  cases d.entry? names with
  | none => rfl
  | some e =>
      cases e with
      | directory => rfl
      | file content =>
          show (d.refusal .remove names >>= fun _ => pure (d.erase names)) = _
          cases d.refusal .remove names <;> rfl

theorem tryRemove_of_unresolved {e : IoError} (h : d.resolve p = .error e) : d.tryRemove p = d := by
  rw [tryRemove, removeFile, find, h]
  rfl

/-- An attempt to remove a file either does so or changes nothing. -/
theorem tryRemove_of_resolve (h : d.resolve p = .ok names) :
    d.tryRemove p = d ∨ d.entry? names ≠ some .directory ∧ d.tryRemove p = d.erase names := by
  rw [tryRemove, removeFile_of_resolve h]
  cases hentry : d.entry? names with
  | none => exact .inl rfl
  | some e =>
      cases e with
      | directory => exact .inl rfl
      | file content =>
          simp only [refusal]
          cases d.refuses .remove names with
          | none => exact .inr ⟨by simp, rfl⟩
          | some e => exact .inl rfl

theorem tryRemove_file {content : List UInt8} (h : d.resolve p = .ok names)
    (hentry : d.entry? names = some (.file content)) (hremove : d.refuses .remove names = none) :
    d.tryRemove p = d.erase names := by
  rw [tryRemove, removeFile_of_resolve h, hentry]
  simp only [refusal, hremove]
  rfl

theorem sameBut_tryRemove (h : d.resolve p = .ok names) (hne : names ≠ []) :
    d.SameBut [names] (d.tryRemove p) := by
  rcases tryRemove_of_resolve h with hsame | ⟨hfile, herase⟩
  · rw [hsame]
    exact .refl [names] d
  · rw [herase]
    exact .erase hne hfile

theorem settled_tryRemove (h : d.resolve p = .ok names) (hne : names ≠ []) :
    d.Settled (d.tryRemove p) names := by
  rcases tryRemove_of_resolve h with hsame | ⟨-, herase⟩
  · exact .inr (by rw [hsame])
  · exact .inl (by rw [herase, entry?_erase hne, if_pos rfl])

end

/-! ## Replacing -/

/-- The names of a file and of its temporary sibling. -/
structure Sits (d : Disk) (p : Path) (names tmp : List Name) : Prop where
  file : d.resolve p = .ok names
  temporary : d.resolve (temporary p) = .ok tmp
  ne : names ≠ tmp
  file_ne_nil : names ≠ []
  temporary_ne_nil : tmp ≠ []
  no_slash : p.bytes.getLast? ≠ some slash

theorem Sits.of_sameBut {S : List (List Name)} {d d' : Disk} {p : Path} {names tmp : List Name}
    (s : d.Sits p names tmp) (h : d.SameBut S d') : d'.Sits p names tmp :=
  { s with file := h.resolve s.file, temporary := h.resolve s.temporary }

theorem sits_of_folder {d : Disk} {p : Path} {dir : List Name} {n : Name} (h : IsName n)
    (hzero : 0 ∉ n) (hdir : d.folder p = .ok dir) :
    d.Sits (p.join ⟨n⟩) (dir ++ [n]) (dir ++ [temporaryName n]) where
  file := by
    rw [resolve_join_name d p h hzero, hdir]
    rfl
  temporary := by
    rw [resolve_temporary d p h hzero, hdir]
    rfl
  ne := by
    have htmp : Text.utf8 ".tmp" ≠ [] := by decide
    simpa [temporaryName] using htmp
  file_ne_nil := by simp
  temporary_ne_nil := by simp
  no_slash := by
    have hlast : n.getLast? ≠ some slash := fun hlast => h.2.1 (List.mem_of_getLast? hlast)
    rcases Path.bytes_join_eq (p := p) (isAbsolute_of_isName h) with
      ⟨-, hjoin⟩ | ⟨as, -, hjoin⟩ | ⟨-, hjoin⟩
    · rw [hjoin]
      exact hlast
    · rw [hjoin, List.append_cons, List.getLast?_append_of_ne_nil _ h.1]
      exact hlast
    · rw [hjoin, List.append_cons, List.getLast?_append_of_ne_nil _ h.1]
      exact hlast

/-- Whether an operation that makes a file of a name can be done. -/
def Accepts (d : Disk) (op : Operation) (names : List Name) : Prop :=
  d.refuses op names = none ∧ d.entry? names ≠ some .directory

/-- What it takes to replace a file. -/
structure Replaceable (d : Disk) (names tmp : List Name) : Prop where
  create : d.Accepts .create tmp
  write : d.refuses .write tmp = none
  rename : d.Accepts .rename names

section

variable {d : Disk} {p : Path} {names tmp : List Name}

theorem accepts_cases {α : Type} (d : Disk) (op : Operation) (names : List Name)
    (x : Except IoError α) :
    let guarded := d.refusal op names >>= fun _ =>
      match d.entry? names with
      | some .directory => .error .isADirectory
      | _ => x
    d.Accepts op names ∧ guarded = x ∨ ¬ d.Accepts op names ∧ ∃ e, guarded = .error e := by
  simp only [refusal]
  cases hrefuses : d.refuses op names with
  | some e =>
      refine .inr ⟨fun h => ?_, e, rfl⟩
      rw [h.1] at hrefuses
      cases hrefuses
  | none =>
      cases hentry : d.entry? names with
      | none => exact .inl ⟨⟨hrefuses, by simp [hentry]⟩, rfl⟩
      | some e =>
          cases e with
          | directory => exact .inr ⟨fun h => h.2 hentry, .isADirectory, rfl⟩
          | file content => exact .inl ⟨⟨hrefuses, by simp [hentry]⟩, rfl⟩

theorem create_cases (h : d.resolve p = .ok names) (hne : names ≠ []) :
    (d.Accepts .create names ∧ ∃ d', d.create p = .ok (names, d') ∧ d.SameBut [names] d' ∧
        d'.entry? names = some (.file [])) ∨
      ¬ d.Accepts .create names ∧ ∃ e, d.create p = .error e := by
  rw [create, h]
  rcases accepts_cases d .create names (.ok (names, d.put names (.file []))) with
    ⟨haccepts, hcreated⟩ | hrefused
  · refine .inl ⟨haccepts, d.put names (.file []), hcreated, .put hne haccepts.2 [], ?_⟩
    rw [entry?_put hne, if_pos rfl]
  · exact .inr hrefused

/-- Moving the temporary sibling over the file, once it is filled. -/
theorem rename_cases (s : d.Sits p names tmp) {content : List UInt8}
    (hfull : d.entry? tmp = some (.file content)) :
    (d.Accepts .rename names ∧ ∃ d', d.rename (temporary p) p = .ok d' ∧
        d.SameBut [names, tmp] d' ∧ d'.entry? names = some (.file content) ∧
        d'.entry? tmp = none) ∨
      ¬ d.Accepts .rename names ∧ ∃ e, d.rename (temporary p) p = .error e := by
  rw [rename, find_of_resolve s.temporary, hfull]
  simp only [beq_eq_false_iff_ne.mpr s.no_slash, s.file]
  rcases accepts_cases d .rename names (.ok ((d.erase tmp).put names (.file content))) with
    ⟨haccepts, hmoved⟩ | hrefused
  · refine .inl ⟨haccepts, (d.erase tmp).put names (.file content), hmoved, ?_, ?_, ?_⟩
    · have hleave : d.SameBut [tmp] (d.erase tmp) :=
        .erase s.temporary_ne_nil (by rw [hfull]; simp)
      have hkept : entry? (d.erase tmp) names = d.entry? names := by
        rw [entry?_erase s.temporary_ne_nil, if_neg s.ne]
      have hmove : (d.erase tmp).SameBut [names] ((d.erase tmp).put names (.file content)) :=
        .put s.file_ne_nil (hkept ▸ haccepts.2) content
      exact (hleave.mono (by simp)).trans (hmove.mono (by simp))
    · rw [entry?_put s.file_ne_nil, if_pos rfl]
    · rw [entry?_put s.file_ne_nil, if_neg s.ne.symm, entry?_erase s.temporary_ne_nil, if_pos rfl]
  · exact .inr hrefused

/-- What filling the temporary sibling and moving it comes to. A failure leaves the disk
alone, or a sibling that could be created. -/
theorem replaceSteps_cases (s : d.Sits p names tmp) (content : List UInt8) :
    (d.Replaceable names tmp ∧ ∃ d', d.replaceSteps p content = (d', .ok ()) ∧
        d.SameBut [names, tmp] d' ∧ d'.entry? names = some (.file content) ∧
        d'.entry? tmp = none) ∨
      ¬ d.Replaceable names tmp ∧ ∃ d' e, d.replaceSteps p content = (d', .error e) ∧
        (d' = d ∨ d.Accepts .create tmp ∧ d.SameBut [tmp] d' ∧
          ∃ written, d'.entry? tmp = some (.file written)) := by
  rw [replaceSteps]
  rcases create_cases s.temporary s.temporary_ne_nil with
    ⟨hcreate, created, heq, hcreated, hempty⟩ | ⟨hrefused, e, heq⟩
  · simp only [heq, refusal, hcreated.refuses]
    cases hwrite : d.refuses .write tmp with
    | some e =>
        refine .inr ⟨fun r => ?_, created, e, rfl, .inr ⟨hcreate, hcreated, [], hempty⟩⟩
        rw [r.write] at hwrite
        cases hwrite
    | none =>
        have hfill : created.SameBut [tmp] (created.put tmp (.file content)) :=
          .put s.temporary_ne_nil (by rw [hempty]; simp) content
        have hfilled := hcreated.trans hfill
        have hfull : entry? (created.put tmp (.file content)) tmp = some (.file content) := by
          rw [entry?_put s.temporary_ne_nil, if_pos rfl]
        have haccepts : Accepts (created.put tmp (.file content)) .rename names ↔
            d.Accepts .rename names := by
          rw [Accepts, hfilled.refuses, hfilled.entry?_eq (by simpa using s.ne), Accepts]
        rcases rename_cases (s.of_sameBut hfilled) hfull with
          ⟨hmove, d', heq, hmoved, hfile, hgone⟩ | ⟨hrefused, e, heq⟩
        · simp only [heq]
          exact .inl ⟨⟨hcreate, hwrite, haccepts.mp hmove⟩, d', rfl,
            (hfilled.mono (by simp)).trans hmoved, hfile, hgone⟩
        · simp only [heq]
          exact .inr ⟨fun r => hrefused (haccepts.mpr r.rename), _, e, rfl,
            .inr ⟨hcreate, hfilled, content, hfull⟩⟩
  · simp only [heq]
    exact .inr ⟨fun r => hrefused r.create, d, e, rfl, .inl rfl⟩

/-- What replacing a file comes to. -/
theorem replace_cases (s : d.Sits p names tmp) (content : List UInt8) :
    (d.Replaceable names tmp ∧ ∃ d', d.replace p content = (d', .ok ()) ∧
        d.SameBut [names, tmp] d' ∧ d'.entry? names = some (.file content) ∧
        d'.entry? tmp = none) ∨
      ¬ d.Replaceable names tmp ∧ ∃ d' e, d.replace p content = (d', .error e) ∧
        d.SameBut [tmp] d' ∧
        ((d.refuses .create tmp = none → d.refuses .remove tmp = none) → d.Settled d' tmp) := by
  rw [replace]
  rcases replaceSteps_cases s content with
    ⟨hreplaceable, d', heq, hrest⟩ | ⟨hnot, d', e, heq, rfl | ⟨hcreate, hsame, written, hentry⟩⟩
  · exact .inl ⟨hreplaceable, d', by rw [heq], hrest⟩
  · refine .inr ⟨hnot, d'.tryRemove (temporary p), e, by rw [heq], ?_, fun _ => ?_⟩
    · exact sameBut_tryRemove s.temporary s.temporary_ne_nil
    · exact settled_tryRemove s.temporary s.temporary_ne_nil
  · have htemporary := hsame.resolve s.temporary
    refine .inr ⟨hnot, d'.tryRemove (temporary p), e, by rw [heq], ?_, fun hremove => ?_⟩
    · exact hsame.trans (sameBut_tryRemove htemporary s.temporary_ne_nil)
    · -- what was written can be removed, as it could be created
      have hremovable : d'.refuses .remove tmp = none := by
        rw [hsame.refuses]
        exact hremove hcreate.1
      left
      rw [tryRemove_file htemporary hentry hremovable, entry?_erase s.temporary_ne_nil, if_pos rfl]

theorem replace_of_unresolved {e : IoError} (h : d.resolve (temporary p) = .error e)
    (content : List UInt8) : d.replace p content = (d, .error e) := by
  have hsteps : d.replaceSteps p content = (d, .error e) := by
    rw [replaceSteps, create, h]
    rfl
  rw [replace, hsteps]
  simp only [tryRemove_of_unresolved h]

end

end ViewPress.Disk
