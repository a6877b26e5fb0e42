import Mathlib.Data.List.Basic
import Mathlib.Data.List.Flatten
import ViewPress.Disk
import ViewPress.Proofs.Outcomes

/-!
# Where a path leads

Walking a path needs a disk only to know that what it passes through is a directory. A
walk that succeeds ends where the names of the path say, and walking two paths that are
joined is walking the one and then the other.
-/

namespace ViewPress

/-! ## Pieces of a path -/

namespace Path

theorem split_cons_of_ne {b : UInt8} (h : b ≠ slash) (bs : List UInt8) :
    split (b :: bs) = (split bs).modifyHead (b :: ·) := by
  rw [split, if_neg (by simpa using h)]
  cases hbs : split bs with
  | nil =>
      cases bs <;> rw [split] at hbs
      · cases hbs
      · split at hbs
        · cases hbs
        · split at hbs <;> cases hbs
  | cons n ns => rfl

theorem split_eq_splitOn (bs : List UInt8) : split bs = bs.splitOn slash := by
  induction bs with
  | nil => rfl
  | cons b bs ih =>
      rw [List.splitOn, List.splitOnP_cons_eq_if_modifyHead, ← List.splitOn, ← ih]
      by_cases h : b = slash
      · rw [h, split, if_pos (beq_self_eq_true slash), if_pos (beq_self_eq_true slash)]
      · rw [split_cons_of_ne h, if_neg (by simpa using h)]

/-- Nothing is lost by splitting. -/
theorem intercalate_split (bs : List UInt8) : [slash].intercalate (split bs) = bs := by
  rw [split_eq_splitOn, List.intercalate_splitOn]

theorem split_ne_nil (bs : List UInt8) : split bs ≠ [] := by
  rw [split_eq_splitOn]
  exact List.splitOn_ne_nil slash bs

theorem split_append_slash (as bs : List UInt8) :
    split (as ++ slash :: bs) = split as ++ split bs := by
  induction as with
  | nil => rfl
  | cons a as ih =>
      by_cases h : a = slash
      · rw [h, List.cons_append, split, split, ih]
        rfl
      · rw [List.cons_append, split_cons_of_ne h, split_cons_of_ne h, ih]
        obtain ⟨n, ns, hns⟩ := List.exists_cons_of_ne_nil (split_ne_nil as)
        rw [hns]
        rfl

theorem split_of_notMem {n : Name} (h : slash ∉ n) : split n = [n] := by
  induction n with
  | nil => rfl
  | cons b n ih =>
      rw [List.mem_cons, not_or] at h
      rw [split_cons_of_ne (Ne.symm h.1), ih h.2]
      rfl

theorem mem_steps {p : Path} {n : Name} (h : n ∈ split p.bytes) (hne : n ≠ []) :
    n ∈ p.steps := by
  have hmem : n ∈ (split p.bytes).filter (· ≠ []) :=
    List.mem_filter.mpr ⟨h, by simpa using hne⟩
  rw [steps]
  split
  · exact List.mem_append_left [dot] hmem
  · exact hmem

theorem length_intercalate_slash (l : List Name) :
    ([slash].intercalate l).length = l.flatten.length + (l.length - 1) := by
  induction l with
  | nil => rfl
  | cons n rest ih =>
      cases rest with
      | nil => simp [List.intercalate]
      | cons m rest =>
          rw [List.intercalate_cons_cons, List.length_append, List.length_append, ih]
          simp only [List.flatten_cons, List.length_append, List.length_cons, List.length_nil]
          omega

/-- Leaving out pieces makes what they are joined to shorter. -/
theorem filter_eq_self_of_length_le {l : List Name} {keep : Name → Bool} (hne : l.filter keep ≠ [])
    (h : ([slash].intercalate l).length ≤ ([slash].intercalate (l.filter keep)).length) :
    l.filter keep = l := by
  rw [length_intercalate_slash, length_intercalate_slash] at h
  have hsublist : (l.filter keep).Sublist l := List.filter_sublist
  have hflatten : (l.filter keep).flatten.length ≤ l.flatten.length :=
    hsublist.flatten.length_le
  have hlength := hsublist.length_le
  have hpos := List.length_pos_of_ne_nil hne
  exact hsublist.eq_of_length (by omega)

/-- The names that a path goes through: its pieces that are neither empty nor a dot. -/
def names (p : Path) : List Name :=
  (split p.bytes).filter fun n => n ≠ [] ∧ n ≠ dot

theorem filter_steps (p : Path) : p.steps.filter (· ≠ dot) = p.names := by
  have hpieces : ((split p.bytes).filter (· ≠ [])).filter (· ≠ dot) = p.names := by
    rw [List.filter_filter, names]
    congr 1
    funext n
    rw [← Bool.decide_and]
    exact decide_eq_decide.mpr and_comm
  rw [steps]
  split
  · rw [List.filter_append, hpieces]
    exact List.append_nil p.names
  · exact hpieces

end Path

/-! ## Walks -/

namespace Disk

open ViewPress.Path (dot dotDot slash)

variable {d : Disk}

theorem walk_cons (here : List Name) (n : Name) (rest : List Name) :
    d.walk here (n :: rest)
      = d.asDirectory here >>= fun _ =>
          d.walk (if n = dot then here else if n = dotDot then here.dropLast else here ++ [n])
            rest := by
  rw [walk]
  congr 1
  funext _
  split
  · rfl
  · split <;> rfl

theorem walk_append (here names rest : List Name) :
    d.walk here (names ++ rest) = d.walk here names >>= fun there => d.walk there rest := by
  induction names generalizing here with
  | nil => rfl
  | cons n names ih =>
      rw [List.cons_append, walk_cons, walk_cons]
      cases d.asDirectory here with
      | error e => rfl
      | ok _ => exact ih _

/-- A walk that never goes up ends below where it starts, at the names it was given. -/
theorem eq_append_of_walk {here names out : List Name} (hup : dotDot ∉ names)
    (h : d.walk here names = .ok out) : out = here ++ names.filter (· ≠ dot) := by
  induction names generalizing here with
  | nil =>
      rw [← Except.ok.inj h]
      exact (List.append_nil here).symm
  | cons n names ih =>
      rw [List.mem_cons, not_or] at hup
      rw [walk_cons] at h
      obtain ⟨_, -, hrest⟩ := exists_ok_of_bind h
      rw [if_neg (Ne.symm hup.1)] at hrest
      by_cases hdot : n = dot
      · rw [if_pos hdot] at hrest
        rw [List.filter_cons_of_neg (by simpa using hdot)]
        exact ih hup.2 hrest
      · rw [if_neg hdot] at hrest
        rw [List.filter_cons_of_pos (by simpa using hdot), ih hup.2 hrest, List.append_assoc]
        rfl

/-! ## Joined paths -/

end Disk

namespace Path

theorem steps_append_slash (as : List UInt8) {bs : List UInt8} (h : bs ≠ []) :
    steps ⟨as ++ slash :: bs⟩ = (split as).filter (· ≠ []) ++ steps ⟨bs⟩ := by
  have hlast : (as ++ slash :: bs).getLast? = bs.getLast? := by
    rw [List.getLast?_append_of_ne_nil _ (List.cons_ne_nil slash bs), List.getLast?_cons]
    cases hbs : bs.getLast? with
    | none => exact absurd (List.getLast?_eq_none_iff.mp hbs) h
    | some b => rfl
  simp only [steps, split_append_slash, List.filter_append, hlast]
  split
  · rw [List.append_assoc]
  · rfl

/-- The steps of joined paths are those of the one and then those of the other. A dot at the
end of the first, which asks for a directory, is left out. -/
theorem exists_steps_join {p q : Path} (hp : p.bytes ≠ []) (hq : q.bytes ≠ [])
    (hrelative : q.isAbsolute = false) :
    ∃ front, (p.steps = front ∨ p.steps = front ++ [dot]) ∧ (p.join q).steps = front ++ q.steps := by
  have hempty : p.bytes.isEmpty = false := by simpa using hp
  by_cases hslash : p.bytes.getLast? = some slash
  · obtain ⟨as, has⟩ := List.getLast?_eq_some_iff.mp hslash
    refine ⟨(split as).filter (· ≠ []), .inr ?_, ?_⟩
    · rw [steps, hslash, has, if_pos (beq_self_eq_true _), split_append_slash, List.filter_append]
      exact congrArg (· ++ [dot]) (List.append_nil _)
    · rw [← steps_append_slash as hq]
      simp [join, hrelative, has]
  · refine ⟨(split p.bytes).filter (· ≠ []), .inl ?_, ?_⟩
    · simp [steps, hslash]
    · rw [← steps_append_slash p.bytes hq]
      simp [join, hrelative, hslash, hempty]

theorem bytes_prefix_join {p q : Path} (hrelative : q.isAbsolute = false) :
    p.bytes <+: (p.join q).bytes := by
  rw [join, if_neg (by simp [hrelative])]
  split
  · exact List.prefix_append p.bytes q.bytes
  · exact List.prefix_append p.bytes (slash :: q.bytes)

theorem isAbsolute_join {p q : Path} (hp : p.bytes ≠ []) (hrelative : q.isAbsolute = false) :
    (p.join q).isAbsolute = p.isAbsolute := by
  obtain ⟨rest, hrest⟩ := bytes_prefix_join (p := p) hrelative
  obtain ⟨b, bs, hbs⟩ := List.exists_cons_of_ne_nil hp
  rw [isAbsolute, ← hrest, isAbsolute, hbs]
  rfl

end Path

namespace Disk

open ViewPress.Path (dot slash)

theorem of_find_eq_ok {d : Disk} {p : Path} {names : List Name} {e : Entry}
    (h : d.find p = .ok (names, e)) : d.resolve p = .ok names ∧ d.entry? names = some e := by
  rw [find] at h
  obtain ⟨there, hthere, h⟩ := exists_ok_of_bind h
  split at h
  · next hentry =>
      cases h
      exact ⟨hthere, hentry⟩
  · cases h

theorem exists_walk_of_resolve {d : Disk} {p : Path} {out : List Name}
    (h : d.resolve p = .ok out) :
    p.bytes ≠ [] ∧ 0 ∉ p.bytes ∧
      d.walk (if p.isAbsolute then [] else d.cwd) p.steps = .ok out := by
  rw [resolve] at h
  split at h
  · cases h
  · next hbytes =>
      rw [Bool.or_eq_true, not_or] at hbytes
      exact ⟨by simpa using hbytes.1, by simpa using hbytes.2, h⟩

/-- What a path that is joined to another leads to is found by walking on from where that
other leads. -/
theorem exists_resolve_of_join {d : Disk} {p q : Path} {out : List Name} (hp : p.bytes ≠ [])
    (hrelative : q.isAbsolute = false) (hsteps : q.steps ≠ [])
    (h : d.resolve (p.join q) = .ok out) :
    ∃ here, d.resolve p = .ok here ∧ d.walk here q.steps = .ok out := by
  obtain ⟨-, hzero, hwalk⟩ := exists_walk_of_resolve h
  have hbytes := Path.bytes_prefix_join (p := p) hrelative
  have hq : q.bytes ≠ [] := by
    intro hq
    rw [Path.steps, hq] at hsteps
    exact hsteps rfl
  obtain ⟨front, hfront, hjoin⟩ := Path.exists_steps_join hp hq hrelative
  rw [hjoin, walk_append, Path.isAbsolute_join hp hrelative] at hwalk
  obtain ⟨here, hhere, hon⟩ := exists_ok_of_bind hwalk
  refine ⟨here, ?_, hon⟩
  -- the walk goes on from `here`, so that is a directory and a dot changes nothing
  have hdirectory : d.asDirectory here = .ok () := by
    obtain ⟨n, rest, hrest⟩ := List.exists_cons_of_ne_nil hsteps
    rw [hrest, walk_cons] at hon
    obtain ⟨⟨⟩, hdirectory, -⟩ := exists_ok_of_bind hon
    exact hdirectory
  have hclean : (p.bytes.isEmpty || p.bytes.contains 0) = false := by
    have hp0 : 0 ∉ p.bytes := fun hmem => hzero (hbytes.subset hmem)
    simp [hp, hp0]
  rw [resolve, hclean, if_neg Bool.false_ne_true]
  rcases hfront with hfront | hfront
  · rw [hfront, hhere]
  · rw [hfront, walk_append, hhere]
    show d.walk here [dot] = _
    rw [walk_cons, hdirectory]
    rfl

/-- A name that a directory can hold. -/
def IsName (n : Name) : Prop :=
  n ≠ [] ∧ slash ∉ n ∧ n ≠ dot ∧ n ≠ Path.dotDot

/-- Every entry is known by names that a directory can hold. -/
def WellNamed (d : Disk) : Prop :=
  ∀ e ∈ d.entries, ∀ n ∈ e.1, IsName n

instance (n : Name) : Decidable (IsName n) :=
  inferInstanceAs (Decidable (_ ∧ _))

instance (d : Disk) : Decidable d.WellNamed :=
  inferInstanceAs (Decidable (∀ e ∈ d.entries, ∀ n ∈ e.1, IsName n))

theorem steps_of_isName {n : Name} (h : IsName n) : Path.steps ⟨n⟩ = [n] := by
  obtain ⟨hempty, hslash, -, -⟩ := h
  have hlast : n.getLast? ≠ some slash := fun hlast => hslash (List.mem_of_getLast? hlast)
  simp [Path.steps, Path.split_of_notMem hslash, hempty, hlast]

theorem isAbsolute_of_isName {n : Name} (h : IsName n) : Path.isAbsolute ⟨n⟩ = false := by
  have hhead : n.head? ≠ some slash := fun hhead => h.2.1 (List.mem_of_head? hhead)
  simpa [Path.isAbsolute] using hhead

/-- The path of names below a directory leads to these names below where the directory is. -/
theorem exists_resolve_of_foldl_join {d : Disk} {root : Path} {names out : List Name}
    (hroot : root.bytes ≠ []) (hnames : ∀ n ∈ names, IsName n)
    (h : d.resolve (names.foldl (fun p n => p.join ⟨n⟩) root) = .ok out) :
    ∃ here, d.resolve root = .ok here ∧ out = here ++ names := by
  induction names generalizing root with
  | nil => exact ⟨out, h, (List.append_nil out).symm⟩
  | cons n names ih =>
      obtain ⟨hname, hrest⟩ := List.forall_mem_cons.mp hnames
      have hsteps := steps_of_isName hname
      have hrelative := isAbsolute_of_isName hname
      have hjoin : (root.join ⟨n⟩).bytes ≠ [] :=
        List.ne_nil_of_length_pos (Nat.lt_of_lt_of_le (List.length_pos_of_ne_nil hroot)
          (Path.bytes_prefix_join hrelative).length_le)
      obtain ⟨there, hthere, rfl⟩ := ih hjoin hrest h
      have hne : Path.steps ⟨n⟩ ≠ [] := by
        rw [hsteps]
        exact List.cons_ne_nil n []
      obtain ⟨here, hhere, hwalk⟩ := exists_resolve_of_join hroot hrelative hne hthere
      refine ⟨here, hhere, ?_⟩
      rw [hsteps] at hwalk
      have hup : Path.dotDot ∉ [n] := by simpa using Ne.symm hname.2.2.2
      rw [eq_append_of_walk hup hwalk, List.filter_cons_of_pos (by simpa using hname.2.2.1),
        List.append_assoc]
      rfl

end Disk

end ViewPress
