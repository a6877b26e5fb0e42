import Mathlib.Data.List.Chain
import ViewPress.Proofs.WellFormed

/-!
# The searches through bases

Two questions are answered by following bases: whether a name leads to a marker, and
whether it leads back to itself. This file says what the answers mean in terms of
chains, lists of names each of which is a base of the symbol of the one before it. It
also says how long the answers take. A turn of the search takes one name off the list
of pending ones and may put any number on it, so the length of that list bounds
nothing. What bounds the turns is the size of the table: every symbol is followed at
most once, and a base is put on the list only when its symbol is followed.
-/

namespace ViewPress.Symbols

variable {symbols : Symbols} {name marker target : String} {seen pending : List String}

/-! ## Chains -/

/-- A chain of bases from `name` to `last`, with one name for every step after the first. -/
def BaseChain (symbols : Symbols) (name : String) (steps : List String) (last : String) : Prop :=
  (name :: steps).IsChain symbols.HasBase ∧
    (name :: steps).getLast (List.cons_ne_nil name steps) = last

theorem baseChain_cons {base last : String} {steps : List String} :
    symbols.BaseChain name (base :: steps) last ↔
      symbols.HasBase name base ∧ symbols.BaseChain base steps last := by
  rw [BaseChain, BaseChain, List.isChain_cons_cons, List.getLast_cons_cons, and_assoc]

theorem derives_iff_exists_baseChain :
    symbols.Derives name marker ↔ ∃ steps, symbols.BaseChain name steps marker := by
  constructor
  · exact List.exists_isChain_cons_of_relationReflTransGen
  · rintro ⟨steps, hchain, hlast⟩
    exact List.relationReflTransGen_of_exists_isChain_cons steps hchain hlast

/-- Leading back takes at least one step. -/
theorem cyclic_iff_exists_baseChain :
    symbols.Cyclic name ↔ ∃ steps, steps ≠ [] ∧ symbols.BaseChain name steps name := by
  rw [Cyclic, Relation.TransGen.head'_iff]
  constructor
  · rintro ⟨base, hbase, hderives⟩
    obtain ⟨steps, hsteps⟩ := derives_iff_exists_baseChain.mp hderives
    exact ⟨base :: steps, List.cons_ne_nil base steps, baseChain_cons.mpr ⟨hbase, hsteps⟩⟩
  · rintro ⟨steps, hne, hsteps⟩
    cases steps with
    | nil => exact absurd rfl hne
    | cons base steps =>
        obtain ⟨hbase, hrest⟩ := baseChain_cons.mp hsteps
        exact ⟨base, hbase, derives_iff_exists_baseChain.mpr ⟨steps, hrest⟩⟩

/-! ## Turns -/

/-- Where a search is: the names it has followed and those that are pending. -/
structure Search where
  seen : List String := []
  pending : List String

/-- The next turn of a search for `target`: its answer, or where it goes on. -/
def turn (symbols : Symbols) (target : String) (s : Search) : Bool ⊕ Search :=
  match s.pending with
  | [] => .inl false
  | current :: rest =>
      if current = target then .inl true
      else if s.seen.contains current then .inr { s with pending := rest }
      else
        match symbols.find? current with
        | none => .inr { s with pending := rest }
        | some symbol => .inr { seen := current :: s.seen, pending := symbol.bases ++ rest }

/-- The answer of a search for `target`, if it comes in at most `n` turns. -/
def answerWithin (symbols : Symbols) (target : String) : Nat → Search → Option Bool
  | 0, _ => none
  | n + 1, s => (symbols.turn target s).elim some (answerWithin symbols target n)

/-- What a search still has to do: a turn for every pending name, and for every symbol that
it has not followed one and one for each of its bases. -/
def Search.size (symbols : Symbols) (s : Search) : Nat :=
  symbols.unfollowed s.seen + s.pending.length

/-- A turn either gives the answer of the search or brings it closer to its end, and the
answer stays the same. -/
theorem turn_cases (symbols : Symbols) (target : String) (s : Search) :
    symbols.turn target s = .inl (symbols.reaches target s.seen s.pending) ∨
      ∃ next, symbols.turn target s = .inr next ∧ next.size symbols < s.size symbols ∧
        symbols.reaches target next.seen next.pending
          = symbols.reaches target s.seen s.pending := by
  obtain ⟨seen, pending⟩ := s
  fun_cases reaches symbols target seen pending with
  | case1 => exact .inl rfl
  | case2 rest => exact .inl (by simp [turn])
  | case3 current rest hne hseen =>
      refine .inr ⟨⟨seen, rest⟩, by simp_all [turn], ?_, rfl⟩
      simp [Search.size]
  | case4 current rest hne hseen hfind =>
      refine .inr ⟨⟨seen, rest⟩, by simp_all [turn], ?_, rfl⟩
      simp [Search.size]
  | case5 current rest hne hseen s hfind hlt =>
      refine .inr ⟨⟨current :: seen, s.bases ++ rest⟩, by simp_all [turn], ?_, rfl⟩
      simp only [Search.size, List.length_append, List.length_cons]
      omega

/-- The search ends, after no more turns than it has to do and one for its answer. -/
theorem answerWithin_of_size_lt {n : Nat} {s : Search} (h : s.size symbols < n) :
    symbols.answerWithin target n s = some (symbols.reaches target s.seen s.pending) := by
  induction n generalizing s with
  | zero => exact absurd h (Nat.not_lt_zero _)
  | succ n ih =>
      rw [answerWithin]
      rcases turn_cases symbols target s with hturn | ⟨next, hturn, hsize, hreaches⟩
      · rw [hturn, Sum.elim_inl]
      · rw [hturn, Sum.elim_inr, ih (by omega), hreaches]

/-- The symbols of a table and their bases. -/
def size (symbols : Symbols) : Nat :=
  symbols.length + (symbols.flatMap Symbol.bases).length

theorem unfollowed_nil (symbols : Symbols) : symbols.unfollowed [] = symbols.size := by
  induction symbols with
  | nil => rfl
  | cons s symbols ih =>
      rw [unfollowed, List.foldr_cons, ← unfollowed, ih]
      simp only [size, List.contains_nil, Bool.false_eq_true, if_false, List.length_cons,
        List.flatMap_cons, List.length_append]
      omega

/-- The bases of the symbol of a name, if the table has one. -/
def basesOf (symbols : Symbols) (name : String) : List String :=
  ((symbols.find? name).map Symbol.bases).getD []

theorem inCycle_eq_reaches (symbols : Symbols) (name : String) :
    symbols.inCycle name = symbols.reaches name [] (symbols.basesOf name) := by
  rw [inCycle, basesOf]
  cases symbols.find? name with
  | none => rw [Option.map_none, Option.getD_none, reaches]
  | some s => rfl

end ViewPress.Symbols

namespace ViewPress.Compilation

/-- In every compilation the two searches decide what chains of bases there are: to the
marker in any number of steps, and back to the name in at least one. Both have their answer
when they have taken one turn more than there are names pending at the start and symbols and
bases in the table. -/
theorem searches_decide_chains (c : Compilation) (name marker : String) :
    (c.symbols.implements name marker = true ↔
      ∃ steps, c.symbols.BaseChain name steps marker) ∧
    (c.symbols.inCycle name = true ↔
      ∃ steps, steps ≠ [] ∧ c.symbols.BaseChain name steps name) ∧
    c.symbols.answerWithin marker (c.symbols.size + 2) { pending := [name] }
      = some (c.symbols.implements name marker) ∧
    c.symbols.answerWithin name (c.symbols.size + (c.symbols.basesOf name).length + 1)
        { pending := c.symbols.basesOf name }
      = some (c.symbols.inCycle name) := by
  refine ⟨?_, ?_, ?_, ?_⟩
  · rw [Symbols.implements_iff, Symbols.derives_iff_exists_baseChain]
  · rw [Symbols.inCycle_iff, Symbols.cyclic_iff_exists_baseChain]
  · rw [Symbols.answerWithin_of_size_lt, Symbols.implements]
    rw [Symbols.Search.size, Symbols.unfollowed_nil]
    exact Nat.lt_succ_self _
  · rw [Symbols.answerWithin_of_size_lt, Symbols.inCycle_eq_reaches]
    rw [Symbols.Search.size, Symbols.unfollowed_nil]
    exact Nat.lt_succ_self _

end ViewPress.Compilation
