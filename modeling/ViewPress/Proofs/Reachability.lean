import Mathlib.Logic.Relation
import ViewPress.Compilation.Check

/-!
# Base chains

`Derives` is the reflexive and transitive closure of naming a base, read off the
symbol table with nothing said about how it is searched. The search of
`Symbols.reaches` decides it, on cyclic tables too.

That a search which fails has missed nothing needs an invariant. What has been
followed is not the target, and a base of it has been followed itself, is still on
the list, or leads nowhere because the table does not know it. When the list runs
out, the names followed and those that lead nowhere are closed under bases, and the
target is none of them.
-/

namespace ViewPress.Symbols

/-- A name and a base of the type that it names. -/
def HasBase (symbols : Symbols) (name base : String) : Prop :=
  ∃ s, symbols.find? name = some s ∧ base ∈ s.bases

/-- A name that is `marker` or has it among the bases of its bases. -/
def Derives (symbols : Symbols) (name marker : String) : Prop :=
  Relation.ReflTransGen symbols.HasBase name marker

theorem derives_iff {symbols : Symbols} {name marker : String} :
    symbols.Derives name marker ↔
      name = marker ∨ ∃ base, symbols.HasBase name base ∧ symbols.Derives base marker := by
  rw [Derives, Relation.ReflTransGen.cases_head_iff]
  rfl

variable {symbols : Symbols} {target : String} {seen pending : List String}

theorem exists_derives_of_reaches (h : symbols.reaches target seen pending = true) :
    ∃ p ∈ pending, symbols.Derives p target := by
  fun_induction reaches symbols target seen pending with
  | case1 => cases h
  | case2 seen rest => exact ⟨target, List.mem_cons_self, .refl⟩
  | case3 seen current rest _ _ ih =>
      obtain ⟨p, hp, hderives⟩ := ih h
      exact ⟨p, List.mem_cons_of_mem current hp, hderives⟩
  | case4 seen current rest _ _ _ ih =>
      obtain ⟨p, hp, hderives⟩ := ih h
      exact ⟨p, List.mem_cons_of_mem current hp, hderives⟩
  | case5 seen current rest _ _ s hfind _ ih =>
      obtain ⟨p, hp, hderives⟩ := ih h
      rcases List.mem_append.mp hp with hp | hp
      · exact ⟨current, List.mem_cons_self, .head ⟨s, hfind, hp⟩ hderives⟩
      · exact ⟨p, List.mem_cons_of_mem current hp, hderives⟩

/-- A name that is not the target and that the table does not know. -/
def LeadsNowhere (symbols : Symbols) (target name : String) : Prop :=
  name ≠ target ∧ symbols.find? name = none

/-- What holds of the names that a search has followed, as long as it goes on. -/
def Followed (symbols : Symbols) (target : String) (seen pending : List String) : Prop :=
  ∀ x ∈ seen, x ≠ target ∧
    ∀ b, symbols.HasBase x b → b ∈ seen ∨ b ∈ pending ∨ symbols.LeadsNowhere target b

namespace Followed

variable {current : String}

/-- A name that has been followed, or leads nowhere, can be taken off the list. -/
theorem drop (h : symbols.Followed target seen (current :: pending))
    (hcurrent : current ∈ seen ∨ symbols.LeadsNowhere target current) :
    symbols.Followed target seen pending := by
  intro x hx
  refine ⟨(h x hx).1, fun b hb => ?_⟩
  rcases (h x hx).2 b hb with hb | hb | hb
  · exact .inl hb
  · rcases List.mem_cons.mp hb with rfl | hb
    · exact hcurrent.elim .inl fun hnowhere => .inr (.inr hnowhere)
    · exact .inr (.inl hb)
  · exact .inr (.inr hb)

/-- A name that is followed puts its bases on the list. -/
theorem follow {s : Symbol} (h : symbols.Followed target seen (current :: pending))
    (hne : current ≠ target) (hfind : symbols.find? current = some s) :
    symbols.Followed target (current :: seen) (s.bases ++ pending) := by
  intro x hx
  rcases List.mem_cons.mp hx with rfl | hx
  · refine ⟨hne, fun b hb => ?_⟩
    obtain ⟨t, ht, hb⟩ := hb
    obtain rfl : s = t := Option.some.inj (hfind.symm.trans ht)
    exact .inr (.inl (List.mem_append_left pending hb))
  · refine ⟨(h x hx).1, fun b hb => ?_⟩
    rcases (h x hx).2 b hb with hb | hb | hb
    · exact .inl (List.mem_cons_of_mem current hb)
    · rcases List.mem_cons.mp hb with rfl | hb
      · exact .inl List.mem_cons_self
      · exact .inr (.inl (List.mem_append_right s.bases hb))
    · exact .inr (.inr hb)

end Followed

/-- A set of names that is closed under bases, holds what leads nowhere, and does not hold
the target. -/
structure Misses (symbols : Symbols) (target : String) (S : String → Prop) : Prop where
  missed : ¬ S target
  closed : ∀ x b, S x → symbols.HasBase x b → S b
  nowhere : ∀ x, symbols.LeadsNowhere target x → S x

/-- A search that fails has been through such a set. -/
theorem exists_misses_of_reaches_eq_false (hfollowed : symbols.Followed target seen pending)
    (h : symbols.reaches target seen pending = false) :
    ∃ S, symbols.Misses target S ∧ (∀ x ∈ seen, S x) ∧ ∀ x ∈ pending, S x := by
  fun_induction reaches symbols target seen pending with
  | case1 seen =>
      refine ⟨fun x => x ∈ seen ∨ symbols.LeadsNowhere target x, ⟨?_, ?_, fun x => .inr⟩,
        fun x => .inl, by simp⟩
      · rintro (hseen | hnowhere)
        · exact (hfollowed target hseen).1 rfl
        · exact hnowhere.1 rfl
      · rintro x b (hx | hx) hbase
        · rcases (hfollowed x hx).2 b hbase with hb | hb | hb
          · exact .inl hb
          · cases hb
          · exact .inr hb
        · obtain ⟨s, hs, -⟩ := hbase
          rw [hx.2] at hs
          cases hs
  | case2 => cases h
  | case3 seen current rest _ hseen ih =>
      have hcurrent : current ∈ seen := by simpa using hseen
      obtain ⟨S, hS, hSseen, hSrest⟩ := ih (hfollowed.drop (.inl hcurrent)) h
      exact ⟨S, hS, hSseen, List.forall_mem_cons.mpr ⟨hSseen current hcurrent, hSrest⟩⟩
  | case4 seen current rest hne _ hfind ih =>
      have hnowhere : symbols.LeadsNowhere target current := ⟨hne, hfind⟩
      obtain ⟨S, hS, hSseen, hSrest⟩ := ih (hfollowed.drop (.inr hnowhere)) h
      exact ⟨S, hS, hSseen, List.forall_mem_cons.mpr ⟨hS.nowhere current hnowhere, hSrest⟩⟩
  | case5 seen current rest hne _ s hfind _ ih =>
      obtain ⟨S, hS, hSseen, hSrest⟩ := ih (hfollowed.follow hne hfind) h
      obtain ⟨hcurrent, hSseen⟩ := List.forall_mem_cons.mp hSseen
      refine ⟨S, hS, hSseen, List.forall_mem_cons.mpr ⟨hcurrent, fun x hx => ?_⟩⟩
      exact hSrest x (List.mem_append_right s.bases hx)

theorem Misses.not_derives {S : String → Prop} (hS : symbols.Misses target S) {name : String}
    (hname : S name) : ¬ symbols.Derives name target := by
  have hreached {x : String} (hx : symbols.Derives name x) : S x := by
    induction hx with
    | refl => exact hname
    | tail _ hbase ih => exact hS.closed _ _ ih hbase
  exact fun hderives => hS.missed (hreached hderives)

/-- The search decides whether a name leads to another through bases. -/
theorem reaches_iff : symbols.reaches target [] pending = true ↔
    ∃ p ∈ pending, symbols.Derives p target := by
  refine ⟨exists_derives_of_reaches, fun ⟨p, hp, hderives⟩ => ?_⟩
  have hfollowed : symbols.Followed target [] pending := by
    intro x hx
    cases hx
  cases hreaches : symbols.reaches target [] pending with
  | true => rfl
  | false =>
      obtain ⟨S, hS, -, hpending⟩ := exists_misses_of_reaches_eq_false hfollowed hreaches
      exact absurd hderives (hS.not_derives (hpending p hp))

theorem implements_iff {name marker : String} :
    symbols.implements name marker = true ↔ symbols.Derives name marker := by
  rw [implements, reaches_iff]
  simp

instance (symbols : Symbols) (name marker : String) : Decidable (symbols.Derives name marker) :=
  decidable_of_iff _ implements_iff

end ViewPress.Symbols
