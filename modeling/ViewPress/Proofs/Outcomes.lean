/-!
# Computations that may fail

A computation that is put together from others succeeds only if they do. These are the
forms in which the proofs take an outcome apart.
-/

namespace ViewPress

variable {ε α β : Type}

theorem eq_ok_of_toOption {x : Except ε α} {a : α} (h : x.toOption = some a) : x = .ok a := by
  cases x with
  | ok b => rw [Option.some.inj h]
  | error e => cases h

theorem eq_error_of_map {x : Except ε α} {f : α → β} {e : ε} (h : x.map f = .error e) :
    x = .error e := by
  cases x with
  | ok a => cases h
  | error e' => exact congrArg Except.error (Except.error.inj h)

theorem exists_ok_of_isOk {x : Except ε α} (h : x.isOk = true) : ∃ a, x = .ok a := by
  cases x with
  | ok a => exact ⟨a, rfl⟩
  | error e => cases h

theorem exists_error_of_isOk_eq_false {x : Except ε α} (h : x.isOk = false) :
    ∃ e, x = .error e := by
  cases x with
  | ok a => cases h
  | error e => exact ⟨e, rfl⟩

theorem exists_ok_of_bind {x : Except ε α} {f : α → Except ε β} {b : β}
    (h : (x >>= f) = .ok b) : ∃ a, x = .ok a ∧ f a = .ok b := by
  cases x with
  | error e => cases h
  | ok a => exact ⟨a, rfl, h⟩

/-- What fails is one of the two parts. -/
theorem error_or_exists_ok_of_bind {x : Except ε α} {f : α → Except ε β} {e : ε}
    (h : (x >>= f) = .error e) : x = .error e ∨ ∃ a, x = .ok a ∧ f a = .error e := by
  cases x with
  | error e' =>
      cases h
      exact .inl rfl
  | ok a => exact .inr ⟨a, rfl, h⟩

/-- Success behind a check means that the check found nothing. -/
theorem of_ite_error_eq_ok {p : Prop} [Decidable p] {e : ε} {x : Except ε α} {a : α}
    (h : (if p then .error e else x) = .ok a) : ¬ p ∧ x = .ok a := by
  by_cases hp : p
  · rw [if_pos hp] at h
    cases h
  · rw [if_neg hp] at h
    exact ⟨hp, h⟩

/-- What a pass over a list gives comes, one by one, of the list's elements. -/
theorem exists_of_mem_mapM {f : α → Except ε β} {as : List α} {bs : List β}
    (h : as.mapM f = .ok bs) {b : β} (hb : b ∈ bs) : ∃ a ∈ as, f a = .ok b := by
  induction as generalizing bs with
  | nil =>
      cases h
      cases hb
  | cons a as ih =>
      rw [List.mapM_cons] at h
      obtain ⟨c, hc, h⟩ := exists_ok_of_bind h
      obtain ⟨cs, hcs, h⟩ := exists_ok_of_bind h
      cases h
      rcases List.mem_cons.mp hb with rfl | hb
      · exact ⟨a, List.mem_cons_self, hc⟩
      · obtain ⟨a', ha', hf⟩ := ih hcs hb
        exact ⟨a', List.mem_cons_of_mem a ha', hf⟩

theorem exists_mapM_eq_ok {f : α → Except ε β} {as : List α} (h : ∀ a ∈ as, ∃ b, f a = .ok b) :
    ∃ bs, as.mapM f = .ok bs := by
  induction as with
  | nil => exact ⟨[], rfl⟩
  | cons a as ih =>
      obtain ⟨⟨b, hb⟩, has⟩ := List.forall_mem_cons.mp h
      obtain ⟨bs, hbs⟩ := ih has
      refine ⟨b :: bs, ?_⟩
      rw [List.mapM_cons, hb, hbs]
      rfl

theorem mem_of_mapM_eq_ok {f : α → Except ε β} {as : List α} {bs : List β}
    (h : as.mapM f = .ok bs) {a : α} {b : β} (ha : a ∈ as) (hf : f a = .ok b) : b ∈ bs := by
  induction as generalizing bs with
  | nil => cases ha
  | cons a' as ih =>
      rw [List.mapM_cons] at h
      obtain ⟨c, hc, h⟩ := exists_ok_of_bind h
      obtain ⟨cs, hcs, h⟩ := exists_ok_of_bind h
      cases h
      rcases List.mem_cons.mp ha with rfl | ha
      · rw [Except.ok.inj (hf.symm.trans hc)]
        exact List.mem_cons_self
      · exact List.mem_cons_of_mem c (ih hcs ha)

/-- What holds between the elements of a list, in order, a pass hands on to what it gives. -/
theorem pairwise_of_mapM_eq_ok {f : α → Except ε β} {as : List α} {bs : List β}
    {R : α → α → Prop} {S : β → β → Prop} (h : as.mapM f = .ok bs) (has : as.Pairwise R)
    (hstep : ∀ a ∈ as, ∀ a' ∈ as, R a a' → ∀ b b', f a = .ok b → f a' = .ok b' → S b b') :
    bs.Pairwise S := by
  induction as generalizing bs with
  | nil =>
      cases h
      exact List.Pairwise.nil
  | cons a as ih =>
      rw [List.mapM_cons] at h
      obtain ⟨b, hb, h⟩ := exists_ok_of_bind h
      obtain ⟨bs', hbs, h⟩ := exists_ok_of_bind h
      cases h
      obtain ⟨ha, has⟩ := List.pairwise_cons.mp has
      refine List.pairwise_cons.mpr ⟨fun b' hb' => ?_, ih hbs has fun a₁ h₁ a₂ h₂ =>
        hstep a₁ (List.mem_cons_of_mem a h₁) a₂ (List.mem_cons_of_mem a h₂)⟩
      obtain ⟨a', ha', hf⟩ := exists_of_mem_mapM hbs hb'
      exact hstep a List.mem_cons_self a' (List.mem_cons_of_mem a ha') (ha a' ha') b b' hb hf

/-- A pass over a list gives what it gave before if each step does. -/
theorem mapM_eq_ok_of_forall {f g : α → Except ε β} {as : List α} {bs : List β}
    (hstep : ∀ a ∈ as, ∀ b, f a = .ok b → g a = .ok b) (h : as.mapM f = .ok bs) :
    as.mapM g = .ok bs := by
  induction as generalizing bs with
  | nil => exact h
  | cons a as ih =>
      rw [List.mapM_cons] at h ⊢
      obtain ⟨b, hb, h⟩ := exists_ok_of_bind h
      obtain ⟨bs', hbs, h⟩ := exists_ok_of_bind h
      have hrest := ih (fun a' ha' => hstep a' (List.mem_cons_of_mem a ha')) hbs
      rw [hstep a List.mem_cons_self b hb, hrest]
      exact h

theorem mapM_eq_ok_map {f : α → Except ε β} {g : α → β} {as : List α}
    (h : ∀ a ∈ as, f a = .ok (g a)) : as.mapM f = .ok (as.map g) := by
  induction as with
  | nil => rfl
  | cons a as ih =>
      obtain ⟨ha, has⟩ := List.forall_mem_cons.mp h
      rw [List.mapM_cons, ha, ih has]
      rfl

/-- The first step that fails is the outcome of a pass over a list. -/
theorem mapM_eq_error {f : α → Except ε β} {g : α → β} {before after : List α} {a : α} {e : ε}
    (hbefore : ∀ b ∈ before, f b = .ok (g b)) (ha : f a = .error e) :
    (before ++ a :: after).mapM f = .error e := by
  rw [List.mapM_append, mapM_eq_ok_map hbefore, List.mapM_cons, ha]
  rfl

end ViewPress
