import ViewPress.Proofs.Walking

/-!
# Files of a folder

A folder may be spelled in many ways, and a file of it is reached by joining its name to
the spelling. Where that leads depends on where the folder is and on nothing else of the
spelling: `resolve_join_name`. The temporary sibling of a file has a path of its own, made
from the path of the file, and it leads into the same folder.

Paths lead where they led as long as directories stay directories. Writing and removing
files keeps them, so `SameBut` says of two disks that they differ in some files only.
-/

namespace ViewPress

namespace Disk

open ViewPress.Path (dot dotDot slash)

/-! ## Single entries -/

theorem lookup_filter (keep : List Name → Bool) (entries : List (List Name × Entry))
    (names : List Name) :
    (entries.filter (keep ·.1)).lookup names
      = if keep names then entries.lookup names else none := by
  induction entries with
  | nil => simp
  | cons head rest ih =>
      obtain ⟨key, e⟩ := head
      rw [List.filter_cons]
      by_cases hkey : names = key
      · rw [hkey] at ih ⊢
        by_cases hkeep : keep key <;> simp [hkeep, ih]
      · by_cases hkeep : keep key <;> simp [hkeep, List.lookup_cons, beq_false_of_ne hkey, ih]

theorem entry?_erase {names : List Name} (h : names ≠ []) (d : Disk) (other : List Name) :
    entry? (d.erase names) other = if other = names then none else d.entry? other := by
  rw [ entry?, erase, lookup_filter (· != names), entry?]
  by_cases hother : other = []
  · simp [hother, Ne.symm h]
  · by_cases hnames : other = names <;> simp [hother, hnames, h]

theorem entry?_put {names : List Name} (h : names ≠ []) (d : Disk) (e : Entry)
    (other : List Name) :
    entry? (d.put names e) other = if other = names then some e else d.entry? other := by
  rw [ entry?, put, List.lookup_cons, lookup_filter (· != names), entry?]
  by_cases hother : other = []
  · simp [hother, Ne.symm h]
  · by_cases hnames : other = names
    · simp [hnames, h]
    · rw [beq_false_of_ne hnames]
      simp [hother, hnames]

/-! ## Disks that differ in files -/

/-- Disks that differ in the files of the given names only. -/
structure SameBut (names : List (List Name)) (d d' : Disk) : Prop where
  entries : d'.entries.filter (·.1 ∉ names) = d.entries.filter (·.1 ∉ names)
  directories : ∀ n, d.entry? n = some .directory → d'.entry? n = some .directory
  cwd : d'.cwd = d.cwd
  refuses : d'.refuses = d.refuses

namespace SameBut

variable {S T : List (List Name)} {d d' d'' : Disk}

theorem refl (S : List (List Name)) (d : Disk) : d.SameBut S d :=
  ⟨rfl, fun _ h => h, rfl, rfl⟩

theorem trans (h : d.SameBut S d') (h' : d'.SameBut S d'') : d.SameBut S d'' where
  entries := h'.entries.trans h.entries
  directories n hn := h'.directories n (h.directories n hn)
  cwd := h'.cwd.trans h.cwd
  refuses := h'.refuses.trans h.refuses

theorem mono (h : d.SameBut S d') (hsub : S ⊆ T) : d.SameBut T d' := by
  refine ⟨?_, h.directories, h.cwd, h.refuses⟩
  have hfilter (entries : List (List Name × Entry)) :
      entries.filter (·.1 ∉ T) = (entries.filter (·.1 ∉ S)).filter (·.1 ∉ T) := by
    rw [List.filter_filter]
    refine List.filter_congr fun e _ => ?_
    by_cases hT : e.1 ∈ T
    · simp [hT]
    · have hS : e.1 ∉ S := fun hS => hT (hsub hS)
      simp [hT, hS]
  rw [hfilter, h.entries, ← hfilter]

theorem entry?_eq (h : d.SameBut S d') {n : List Name} (hn : n ∉ S) : d'.entry? n = d.entry? n := by
  have hlookup (entries : List (List Name × Entry)) :
      (entries.filter (·.1 ∉ S)).lookup n = entries.lookup n := by
    rw [lookup_filter (· ∉ S), if_pos (by simpa using hn)]
  rw [ entry?, entry?, ← hlookup d'.entries, h.entries, hlookup]

variable {n : List Name} (hne : n ≠ []) (hfile : d.entry? n ≠ some .directory)
include hne hfile

theorem erase : d.SameBut [n] (d.erase n) := by
  refine ⟨?_, fun m hm => ?_, rfl, rfl⟩
  · rw [Disk.erase, List.filter_filter]
    refine List.filter_congr fun e _ => ?_
    by_cases he : e.1 = n <;> simp [he]
  · rw [entry?_erase hne, if_neg (fun hmn : m = n => hfile (hmn ▸ hm))]
    exact hm

theorem put (content : List UInt8) : d.SameBut [n] (d.put n (.file content)) := by
  refine ⟨?_, fun m hm => ?_, rfl, rfl⟩
  · rw [Disk.put, List.filter_cons_of_neg (by simp), List.filter_filter]
    refine List.filter_congr fun e _ => ?_
    by_cases he : e.1 = n <;> simp [he]
  · rw [entry?_put hne, if_neg (fun hmn : m = n => hfile (hmn ▸ hm))]
    exact hm

end SameBut

/-! ## Walks on such disks -/

theorem find_of_resolve {d : Disk} {p : Path} {names : List Name} (h : d.resolve p = .ok names) :
    d.find p = match d.entry? names with
      | some e => .ok (names, e)
      | none => .error .notFound := by
  rw [find, h]
  rfl

theorem asDirectory_eq_ok_iff {d : Disk} {n : List Name} :
    d.asDirectory n = .ok () ↔ d.entry? n = some .directory := by
  rw [asDirectory]
  split <;> simp [*]

section

variable {S : List (List Name)} {d d' : Disk} (h : d.SameBut S d')
include h

theorem SameBut.walk {here names out : List Name} (hwalk : d.walk here names = .ok out) :
    d'.walk here names = .ok out := by
  induction names generalizing here with
  | nil => exact hwalk
  | cons n names ih =>
      rw [walk_cons] at hwalk ⊢
      obtain ⟨⟨⟩, hdirectory, hrest⟩ := exists_ok_of_bind hwalk
      rw [asDirectory_eq_ok_iff] at hdirectory
      rw [asDirectory_eq_ok_iff.mpr (h.directories here hdirectory)]
      exact ih hrest

theorem SameBut.resolve {p : Path} {out : List Name} (hresolve : d.resolve p = .ok out) :
    d'.resolve p = .ok out := by
  rw [Disk.resolve] at hresolve ⊢
  split at hresolve
  · cases hresolve
  · next hbytes =>
      rw [if_neg hbytes, h.cwd]
      exact h.walk hresolve

theorem SameBut.find {p : Path} {out : List Name} (hresolve : d.resolve p = .ok out)
    (hout : out ∉ S) : d'.find p = d.find p := by
  rw [find_of_resolve hresolve, find_of_resolve (h.resolve hresolve), h.entry?_eq hout]

end

end Disk

/-! ## Folders -/

namespace Path

/-- The pieces of a path that a walk goes through. -/
def pieces (p : Path) : List Name :=
  (split p.bytes).filter (· ≠ [])

theorem pieces_append_slash (as bs : List UInt8) :
    pieces ⟨as ++ slash :: bs⟩ = pieces ⟨as⟩ ++ pieces ⟨bs⟩ := by
  rw [pieces, split_append_slash, List.filter_append, pieces, pieces]

theorem bytes_join_eq {p q : Path} (hrelative : q.isAbsolute = false) :
    p.bytes = [] ∧ (p.join q).bytes = q.bytes ∨
      (∃ as, p.bytes = as ++ [slash] ∧ (p.join q).bytes = as ++ slash :: q.bytes) ∨
      p.bytes ≠ [] ∧ (p.join q).bytes = p.bytes ++ slash :: q.bytes := by
  by_cases hp : p.bytes = []
  · exact .inl ⟨hp, by simp [join, hrelative, hp]⟩
  · by_cases hslash : p.bytes.getLast? = some slash
    · obtain ⟨as, has⟩ := List.getLast?_eq_some_iff.mp hslash
      exact .inr (.inl ⟨as, has, by simp [join, hrelative, has]⟩)
    · exact .inr (.inr ⟨hp, by simp [join, hrelative, hp, hslash]⟩)

section

variable {p : Path} {n : Name} (h : Disk.IsName n)
include h

theorem steps_join_name : (p.join ⟨n⟩).steps = p.pieces ++ [n] := by
  have hsteps := Disk.steps_of_isName h
  rcases bytes_join_eq (p := p) (Disk.isAbsolute_of_isName h) with
    ⟨hp, hjoin⟩ | ⟨as, hp, hjoin⟩ | ⟨-, hjoin⟩
  · rw [show p.join ⟨n⟩ = ⟨n⟩ from congrArg Path.mk hjoin, hsteps, pieces, hp]
    rfl
  · rw [show p.join ⟨n⟩ = ⟨as ++ slash :: n⟩ from congrArg Path.mk hjoin,
      steps_append_slash as h.1, hsteps, pieces, hp, split_append_slash, List.filter_append]
    simp [split]
  · rw [show p.join ⟨n⟩ = ⟨p.bytes ++ slash :: n⟩ from congrArg Path.mk hjoin,
      steps_append_slash p.bytes h.1, hsteps, pieces]

theorem isAbsolute_join_name : (p.join ⟨n⟩).isAbsolute = p.isAbsolute := by
  by_cases hp : p.bytes = []
  · have hjoin : p.join ⟨n⟩ = ⟨n⟩ := by simp [join, Disk.isAbsolute_of_isName h, hp]
    rw [hjoin, Disk.isAbsolute_of_isName h, isAbsolute, hp]
    rfl
  · exact isAbsolute_join hp (Disk.isAbsolute_of_isName h)

theorem zero_mem_join_name (hzero : 0 ∉ n) : 0 ∈ (p.join ⟨n⟩).bytes ↔ 0 ∈ p.bytes := by
  have hslash : (0 : UInt8) ≠ slash := by decide
  rcases bytes_join_eq (p := p) (Disk.isAbsolute_of_isName h) with
    ⟨hp, hjoin⟩ | ⟨as, hp, hjoin⟩ | ⟨-, hjoin⟩
  · simp [hjoin, hp, hzero]
  · simp [hjoin, hp, hzero, hslash]
  · simp [hjoin, hzero, hslash]

end

end Path

namespace Disk

open ViewPress.Path (dot dotDot slash)

/-- The directory that a path leads to. No path at all leads to the working directory. -/
def folder (d : Disk) (p : Path) : Except IoError (List Name) :=
  if p.bytes.contains 0 then .error .notFound
  else do
    let here ← d.walk (if p.isAbsolute then [] else d.cwd) p.pieces
    d.asDirectory here
    return here

theorem SameBut.folder {S : List (List Name)} {d d' : Disk} (h : d.SameBut S d') {p : Path}
    {dir : List Name} (hdir : d.folder p = .ok dir) : d'.folder p = .ok dir := by
  rw [Disk.folder] at hdir ⊢
  split at hdir
  · cases hdir
  · next hzero =>
      obtain ⟨here, hhere, hdir⟩ := exists_ok_of_bind hdir
      obtain ⟨⟨⟩, hdirectory, hdir⟩ := exists_ok_of_bind hdir
      have hstays := h.directories here (asDirectory_eq_ok_iff.mp hdirectory)
      rw [if_neg hzero, h.cwd, h.walk hhere]
      show (d'.asDirectory here >>= fun _ => pure here) = _
      rw [asDirectory_eq_ok_iff.mpr hstays]
      exact hdir

/-- A file is where its folder is. -/
theorem resolve_join_name (d : Disk) (p : Path) {n : Name} (h : IsName n) (hzero : 0 ∉ n) :
    d.resolve (p.join ⟨n⟩) = (d.folder p).map (· ++ [n]) := by
  have hbytes : (p.join ⟨n⟩).bytes ≠ [] := by
    intro hempty
    have hsteps := Path.steps_join_name (p := p) h
    rw [Path.steps, hempty] at hsteps
    simp [Path.split] at hsteps
  have hcontains : ((p.join ⟨n⟩).bytes.isEmpty || (p.join ⟨n⟩).bytes.contains 0)
      = p.bytes.contains 0 := by
    rw [Bool.eq_iff_iff]
    simp [hbytes, Path.zero_mem_join_name h hzero]
  rw [resolve, hcontains, folder, Path.isAbsolute_join_name h, Path.steps_join_name h, walk_append]
  split
  · rfl
  · cases d.walk (if p.isAbsolute then [] else d.cwd) p.pieces with
    | error e => rfl
    | ok here =>
        show d.walk here [n] = (d.asDirectory here >>= fun _ => pure here).map (· ++ [n])
        rw [walk_cons, if_neg h.2.2.1, if_neg h.2.2.2]
        cases d.asDirectory here <;> rfl

/-! ## Temporary siblings -/

theorem folder_append_slash {as : List UInt8} (h : as ≠ []) (d : Disk) :
    d.folder ⟨as ++ [slash]⟩ = d.folder ⟨as⟩ := by
  have hpieces : Path.pieces ⟨as ++ [slash]⟩ = Path.pieces ⟨as⟩ := by
    rw [Path.pieces_append_slash]
    exact List.append_nil _
  have habsolute : Path.isAbsolute ⟨as ++ [slash]⟩ = Path.isAbsolute ⟨as⟩ := by
    obtain ⟨b, bs, rfl⟩ := List.exists_cons_of_ne_nil h
    rfl
  have hzero : (as ++ [slash]).contains 0 = as.contains 0 := by
    have hslash : (0 : UInt8) ≠ slash := by decide
    rw [Bool.eq_iff_iff]
    simp [hslash]
  rw [folder, folder, hpieces, habsolute, hzero]

/-- A dot at the end asks again for the directory that is there. -/
theorem folder_append_dot (as : List UInt8) (d : Disk) :
    d.folder ⟨as ++ slash :: dot⟩ = d.folder ⟨as ++ [slash]⟩ := by
  have hpieces : Path.pieces ⟨as ++ slash :: dot⟩ = Path.pieces ⟨as ++ [slash]⟩ ++ [dot] := by
    rw [Path.pieces_append_slash, Path.pieces_append_slash, List.append_assoc]
    rfl
  have habsolute : Path.isAbsolute ⟨as ++ slash :: dot⟩ = Path.isAbsolute ⟨as ++ [slash]⟩ := by
    cases as <;> rfl
  have hzero : (as ++ slash :: dot).contains 0 = (as ++ [slash]).contains 0 := by
    rw [Bool.eq_iff_iff]
    simp [dot]
  rw [folder, folder, hpieces, habsolute, hzero, walk_append]
  split
  · rfl
  · cases d.walk _ (Path.pieces ⟨as ++ [slash]⟩) with
    | error e => rfl
    | ok here =>
        show (d.walk here [dot] >>= fun here => d.asDirectory here >>= fun _ => pure here)
          = (d.asDirectory here >>= fun _ => pure here)
        rw [walk_cons, if_pos rfl]
        cases hdirectory : d.asDirectory here with
        | error e => rfl
        | ok _ =>
            show (d.asDirectory here >>= fun _ => pure here) = _
            rw [hdirectory]

theorem folder_trimTail (bs : List UInt8) (d : Disk) :
    d.folder ⟨(Path.trimTail bs).reverse⟩ = d.folder ⟨bs.reverse⟩ := by
  fun_induction Path.trimTail bs with
  | case1 rest hrest =>
      rw [List.isEmpty_iff.mp hrest]
  | case2 rest hrest ih =>
      rw [ih, List.reverse_cons]
      exact (folder_append_slash (by simpa using hrest) d).symm
  | case3 rest ih =>
      rw [ih, List.reverse_cons, List.reverse_cons, List.reverse_cons, List.append_assoc]
      exact (folder_append_dot rest.reverse d).symm
  | case4 => rfl

end Disk

namespace Path

section

variable {n : Name} (h : Disk.IsName n)
include h

theorem getLast?_components_join_name (p : Path) :
    (p.join ⟨n⟩).components.getLast? = some (.name n) := by
  have hsplit : ∃ front, split (p.join ⟨n⟩).bytes = front ++ [n] := by
    have hn := split_of_notMem h.2.1
    rcases bytes_join_eq (p := p) (Disk.isAbsolute_of_isName h) with
      ⟨-, hjoin⟩ | ⟨as, -, hjoin⟩ | ⟨-, hjoin⟩
    · exact ⟨[], by rw [hjoin, hn, List.nil_append]⟩
    · exact ⟨split as, by rw [hjoin, split_append_slash, hn]⟩
    · exact ⟨split p.bytes, by rw [hjoin, split_append_slash, hn]⟩
  obtain ⟨front, hfront⟩ := hsplit
  have hkept : [n].filter (fun n => n ≠ [] ∧ n ≠ dot) = [n] := by simp [h.1, h.2.2.1]
  have hpiece : ofPiece n = .name n := if_neg h.2.2.2
  rw [components, hfront, List.filter_append, hkept, List.map_append, List.map_singleton, hpiece]
  split
  · rw [← List.cons_append, List.getLast?_concat]
  · split
    · rw [← List.cons_append, List.getLast?_concat]
    · rw [List.getLast?_concat]

theorem fileName?_join_name (p : Path) : (p.join ⟨n⟩).fileName? = some n := by
  rw [fileName?, getLast?_components_join_name h]

/-- Nothing is trimmed where a path ends in a name. -/
theorem trimTail_of_name (rest : List UInt8) :
    trimTail (n.reverse ++ rest) = n.reverse ++ rest := by
  have hslash : slash ∉ n.reverse := by simpa using h.2.1
  obtain ⟨b, bs, hbs⟩ := List.exists_cons_of_ne_nil (mt List.reverse_eq_nil_iff.mp h.1)
  rw [hbs] at hslash ⊢
  rw [List.mem_cons, not_or] at hslash
  rw [List.cons_append]
  unfold trimTail
  split
  · next heq => exact absurd (List.cons.inj heq).1.symm hslash.1
  · next heq =>
      obtain ⟨hb, hnext⟩ := List.cons.inj heq
      cases bs with
      | nil =>
          -- the name would be a single dot
          have hdot : n = dot := by rw [← List.reverse_reverse n, hbs, hb]; rfl
          exact absurd hdot h.2.2.1
      | cons c cs => exact absurd ((List.cons.inj hnext).1.symm ▸ List.mem_cons_self) hslash.2
  · rfl

theorem dropWhile_name {rest : List UInt8} (hrest : rest.head?.all (· = slash)) :
    (n.reverse ++ rest).dropWhile (· != slash) = rest := by
  have hname : ∀ b ∈ n.reverse, (b != slash) = true := by
    intro b hb
    have hmem : b ∈ n := by simpa using hb
    have hne : b ≠ slash := fun hslash => h.2.1 (hslash ▸ hmem)
    simpa using hne
  rw [List.dropWhile_append_of_pos hname]
  cases rest with
  | nil => rfl
  | cons b bs => rw [List.dropWhile_cons_of_neg (by simpa using hrest)]

end

end Path

namespace Disk

open ViewPress.Path (dot dotDot slash)

/-- A path that ends in a name has a parent, which leads to the folder the name was joined
to. -/
theorem exists_parent_join_name {n : Name} (h : IsName n) (p : Path) :
    ∃ q, (p.join ⟨n⟩).parent? = some q ∧ ∀ d : Disk, d.folder q = d.folder p := by
  have hparent (rest : List UInt8) (hrest : rest.head?.all (· = slash))
      (hbytes : (p.join ⟨n⟩).bytes.reverse = n.reverse ++ rest) :
      (p.join ⟨n⟩).parent? = some ⟨(Path.trimTail rest).reverse⟩ := by
    rw [Path.parent?, Path.getLast?_components_join_name h]
    simp only [hbytes, Path.trimTail_of_name h, Path.dropWhile_name h hrest]
  rcases Path.bytes_join_eq (p := p) (isAbsolute_of_isName h) with
    ⟨hp, hjoin⟩ | ⟨as, hp, hjoin⟩ | ⟨hp, hjoin⟩
  · refine ⟨_, hparent [] rfl (by simp [hjoin]), fun d => ?_⟩
    rw [folder_trimTail, show p = ⟨[]⟩ from congrArg Path.mk hp]
    rfl
  · refine ⟨_, hparent (slash :: as.reverse) (by simp) (by simp [hjoin]), fun d => ?_⟩
    rw [folder_trimTail, List.reverse_cons, List.reverse_reverse, ← hp]
  · refine ⟨_, hparent (slash :: p.bytes.reverse) (by simp) (by simp [hjoin]), fun d => ?_⟩
    rw [folder_trimTail, List.reverse_cons, List.reverse_reverse, folder_append_slash hp]

/-- An ending that makes a name of whatever comes before it. -/
def IsEnding (x : List UInt8) : Prop :=
  slash ∉ x ∧ 0 ∉ x ∧ 2 < x.length

instance (x : List UInt8) : Decidable (IsEnding x) :=
  inferInstanceAs (Decidable (_ ∧ _))

theorem IsEnding.isName {x stem : List UInt8} (h : IsEnding x) (hstem : slash ∉ stem) :
    IsName (stem ++ x) := by
  have hlong (m : Name) (hm : m.length ≤ 2) : stem ++ x ≠ m := by
    intro heq
    have hlength := congrArg List.length heq
    have hx := h.2.2
    rw [List.length_append] at hlength
    omega
  refine ⟨hlong [] (by simp), ?_, hlong dot (by simp [dot]), hlong dotDot (by simp [dotDot])⟩
  rw [List.mem_append, not_or]
  exact ⟨hstem, h.1⟩

/-- The name of the temporary sibling of a file. -/
def temporaryName (n : Name) : Name :=
  n ++ Text.utf8 ".tmp"

theorem isEnding_tmp : IsEnding (Text.utf8 ".tmp") := by
  decide

theorem isName_temporaryName {n : Name} (h : IsName n) : IsName (temporaryName n) :=
  isEnding_tmp.isName h.2.1

theorem zero_notMem_temporaryName {n : Name} (h : 0 ∉ n) : 0 ∉ temporaryName n := by
  rw [temporaryName, List.mem_append, not_or]
  exact ⟨h, isEnding_tmp.2.1⟩

/-- The temporary sibling of a file is in the folder of the file. -/
theorem resolve_temporary (d : Disk) (p : Path) {n : Name} (h : IsName n) (hzero : 0 ∉ n) :
    d.resolve (temporary (p.join ⟨n⟩)) = (d.folder p).map (· ++ [temporaryName n]) := by
  obtain ⟨q, hparent, hq⟩ := exists_parent_join_name h p
  have hpath : temporary (p.join ⟨n⟩) = q.join ⟨temporaryName n⟩ := by
    rw [temporary, Path.withFileName, Path.fileName?_join_name h, hparent]
    rfl
  rw [hpath, resolve_join_name d q (isName_temporaryName h) (zero_notMem_temporaryName hzero), hq]

end Disk

/-! ## Names with different endings -/

namespace Path

theorem join_append {p : Path} {bs : List UInt8} (h : bs ≠ []) (more : List UInt8) :
    p.join ⟨bs ++ more⟩ = ⟨(p.join ⟨bs⟩).bytes ++ more⟩ := by
  have habsolute : isAbsolute ⟨bs ++ more⟩ = isAbsolute ⟨bs⟩ := by
    obtain ⟨b, bs, rfl⟩ := List.exists_cons_of_ne_nil h
    rfl
  simp only [join, habsolute]
  split
  · rfl
  · split <;> simp

/-- What follows the last slash of a path. -/
theorem exists_join_name (bs : List UInt8) :
    ∃ (p : Path) (stem : Name), slash ∉ stem ∧ stem ⊆ bs ∧
      ∀ more, Disk.IsName (stem ++ more) → Path.mk (bs ++ more) = p.join ⟨stem ++ more⟩ := by
  by_cases hslash : slash ∈ bs
  · obtain ⟨back, front, hbs, hback⟩ :=
      List.eq_append_cons_of_mem (List.mem_reverse.mpr hslash)
    have hbs' : bs = front.reverse ++ slash :: back.reverse := by
      rw [← List.reverse_reverse bs, hbs]
      simp
    refine ⟨⟨front.reverse ++ [slash]⟩, back.reverse, by simpa using hback, ?_,
      fun more hname => ?_⟩
    · rw [hbs']
      exact fun b hb => List.mem_append_right _ (List.mem_cons_of_mem _ hb)
    · simp [join, Disk.isAbsolute_of_isName hname, hbs']
  · refine ⟨⟨[]⟩, bs, hslash, List.Subset.refl bs, fun more hname => ?_⟩
    simp [join, Disk.isAbsolute_of_isName hname]

end Path

namespace Disk

open ViewPress.Path (dot dotDot slash)

/-- Paths that differ in their endings lead into the same folder. -/
theorem exists_resolve_of_ending {d : Disk} {bs x y : List UInt8} {out : List Name}
    (hx : IsEnding x) (hy : IsEnding y) (h : d.resolve ⟨bs ++ x⟩ = .ok out) :
    ∃ out', d.resolve ⟨bs ++ y⟩ = .ok out' := by
  obtain ⟨p, stem, hslash, hsubset, hjoin⟩ := Path.exists_join_name bs
  have hzero : 0 ∉ stem := by
    intro hmem
    have hbytes := (exists_walk_of_resolve h).2.1
    exact hbytes (List.mem_append_left x (hsubset hmem))
  have hclean {z : List UInt8} (hz : IsEnding z) : 0 ∉ stem ++ z := by
    rw [List.mem_append, not_or]
    exact ⟨hzero, hz.2.1⟩
  rw [hjoin x (hx.isName hslash), resolve_join_name d p (hx.isName hslash) (hclean hx)] at h
  rw [hjoin y (hy.isName hslash), resolve_join_name d p (hy.isName hslash) (hclean hy)]
  cases hfolder : d.folder p with
  | error e =>
      rw [hfolder] at h
      cases h
  | ok dir => exact ⟨dir ++ [stem ++ y], rfl⟩

end Disk

end ViewPress
