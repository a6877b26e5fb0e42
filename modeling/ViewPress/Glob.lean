import ViewPress.Text.Utf8

/-!
# Glob patterns

Patterns select files by their relative path, on bytes. `?` and bracket sets
match one byte other than a slash, `*` any run without a slash, and `**` between
slashes any run at all; a backslash takes the next byte literally.

A star tries the rest of the pattern at one place of the path after another. Two
of the ways to fail stop such a search early: `exhausted` says that the path is
too short however much the star takes, and `segmentEnd` that a single star would
have to cross a slash, so that only a `**` further out can still help. Stars nest
at most 64 deep; past that the answer is `tooDeep`, which is no match.
-/

namespace ViewPress.Glob

inductive Outcome where
  | matched
  | mismatch
  | exhausted
  | segmentEnd
  | tooDeep
  deriving DecidableEq, Repr

def slash : UInt8 := 0x2F
def star : UInt8 := 0x2A
def question : UInt8 := 0x3F
def backslash : UInt8 := 0x5C
def openBracket : UInt8 := 0x5B
def closeBracket : UInt8 := 0x5D
def colon : UInt8 := 0x3A
def dash : UInt8 := 0x2D

def isUpper (b : UInt8) : Bool := 0x41 ≤ b && b ≤ 0x5A
def isLower (b : UInt8) : Bool := 0x61 ≤ b && b ≤ 0x7A
def isDigit (b : UInt8) : Bool := 0x30 ≤ b && b ≤ 0x39
def isGraphic (b : UInt8) : Bool := 0x21 ≤ b && b ≤ 0x7E

/-- Whether a byte is in a named set such as `alpha`, if there is such a set. -/
def inNamedSet? (name : String) (b : UInt8) : Option Bool :=
  match name with
  | "alnum" => some (isUpper b || isLower b || isDigit b)
  | "alpha" => some (isUpper b || isLower b)
  | "blank" => some (b == 0x20 || b == 0x09 || b == 0x0A || b == 0x0C || b == 0x0D)
  | "cntrl" => some (b < 0x20 || b == 0x7F)
  | "digit" => some (isDigit b)
  | "graph" => some (isGraphic b)
  | "lower" => some (isLower b)
  | "print" => some (b == 0x20 || isGraphic b)
  | "punct" => some (isGraphic b && !(isUpper b || isLower b || isDigit b))
  | "space" => some (b == 0x20)
  | "upper" => some (isUpper b)
  | "xdigit" => some (isDigit b || (0x41 ≤ b && b ≤ 0x46) || (0x61 ≤ b && b ≤ 0x66))
  | _ => none

/-- What stands before the first closing bracket, and what follows it. -/
def untilBracket : List UInt8 → Option (List UInt8 × List UInt8)
  | [] => none
  | b :: rest =>
      if b == closeBracket then some ([], rest)
      else (untilBracket rest).map fun (body, after) => (b :: body, after)

/-- The name in `name:]`, given what stands before the bracket. -/
def setName? (body : List UInt8) : Option String :=
  if body.getLast? == some colon then
    some (String.ofList (body.dropLast.map fun b => Char.ofNat b.toNat))
  else none

/-- Reads one member of a bracket set that starts with `c`, for the byte `t`:
the low end of a range that may follow, whether `t` is in it, and the rest. -/
def setItem (t low c : UInt8) (rest : List UInt8) : Option (UInt8 × Bool × List UInt8) :=
  if c == backslash then
    match rest with
    | [] => none
    | d :: after => if d == t then some (low, true, after) else some (d, false, after)
  else if c == dash && low != 0 && rest.head?.any (· != closeBracket) then
    match rest with
    | [] => none
    | high :: after =>
        if high == backslash then
          match after with
          | [] => none
          | high :: after => some (0, low ≤ t && t ≤ high, after)
        else some (0, low ≤ t && t ≤ high, after)
  else if c == openBracket && rest.head? == some colon then do
    let (body, after) ← untilBracket rest.tail
    let name ← setName? body
    let hit ← inNamedSet? name t
    return (0, hit, after)
  else some (c, c == t, rest)

theorem length_le_of_untilBracket {bs body after : List UInt8}
    (h : untilBracket bs = some (body, after)) : after.length ≤ bs.length := by
  induction bs generalizing body with
  | nil => simp [untilBracket] at h
  | cons b rest ih =>
      rw [untilBracket] at h
      split at h
      · simp only [Option.some.injEq, Prod.mk.injEq] at h
        obtain ⟨_, rfl⟩ := h
        simp
      · obtain ⟨⟨i, r⟩, hi, he⟩ := Option.map_eq_some_iff.mp h
        simp only [Prod.mk.injEq] at he
        obtain ⟨_, rfl⟩ := he
        have := ih hi
        simp only [List.length_cons]
        omega

theorem length_le_of_setItem {t low c low' : UInt8} {rest after : List UInt8} {hit : Bool}
    (h : setItem t low c rest = some (low', hit, after)) : after.length ≤ rest.length := by
  unfold setItem at h
  split at h
  · split at h
    · simp at h
    · split at h <;> simp only [Option.some.injEq, Prod.mk.injEq] at h <;>
        obtain ⟨_, _, rfl⟩ := h <;> simp
  · split at h
    · split at h
      · simp at h
      · split at h
        · split at h
          · simp at h
          · simp only [Option.some.injEq, Prod.mk.injEq] at h
            obtain ⟨_, _, rfl⟩ := h
            simp only [List.length_cons]
            omega
        · simp only [Option.some.injEq, Prod.mk.injEq] at h
          obtain ⟨_, _, rfl⟩ := h
          simp
    · split at h
      · simp only [Option.bind_eq_bind, Option.bind_eq_some_iff, Option.pure_def,
          Option.some.injEq, Prod.mk.injEq] at h
        obtain ⟨⟨body, after'⟩, hb, _, _, _, _, _, _, rfl⟩ := h
        have := length_le_of_untilBracket hb
        simp only [List.length_tail] at this ⊢
        omega
      · simp only [Option.some.injEq, Prod.mk.injEq] at h
        obtain ⟨_, _, rfl⟩ := h
        exact Nat.le_refl _

/-- Reads a bracket set up to and with its closing bracket: whether `t` is in it,
and the rest. The first byte is a member even if it is a bracket. -/
def readSet (t low : UInt8) (hit : Bool) (p : List UInt8) : Option (Bool × List UInt8) :=
  match p with
  | [] => none
  | c :: rest =>
      match h : setItem t low c rest with
      | none => none
      | some (low', hit', after) =>
          have : after.length < rest.length + 1 :=
            Nat.lt_succ_of_le (length_le_of_setItem h)
          if after.head? == some closeBracket then some (hit || hit', after.tail)
          else readSet t low' (hit || hit') after
termination_by p.length

theorem length_lt_of_readSet {t low : UInt8} {hit found : Bool} {p after : List UInt8}
    (h : readSet t low hit p = some (found, after)) : after.length < p.length := by
  fun_induction readSet t low hit p with
  | case1 => simp at h
  | case2 => simp at h
  | case3 low hit c rest low' hit' after' hs _ hb =>
      simp only [Option.some.injEq, Prod.mk.injEq] at h
      obtain ⟨_, rfl⟩ := h
      have := length_le_of_setItem hs
      simp only [List.length_tail, List.length_cons]
      omega
  | case4 low hit c rest low' hit' after' hs _ hb ih =>
      have := ih h
      have := length_le_of_setItem hs
      simp only [List.length_cons]
      omega

/-- A whole bracket set from after its opening bracket: whether it takes `t`. -/
def bracketTakes? (t : UInt8) : List UInt8 → Option (Bool × List UInt8)
  | [] => none
  | c :: rest =>
      if c == 0x21 || c == 0x5E then
        (readSet t 0 false rest).map fun (hit, after) => (!hit && t != slash, after)
      else (readSet t 0 false (c :: rest)).map fun (hit, after) => (hit && t != slash, after)

theorem length_lt_of_bracketTakes {t : UInt8} {p after : List UInt8} {takes : Bool}
    (h : bracketTakes? t p = some (takes, after)) : after.length < p.length := by
  cases p with
  | nil => simp [bracketTakes?] at h
  | cons c rest =>
      rw [bracketTakes?] at h
      split at h <;>
        (obtain ⟨⟨hit, r⟩, hr, he⟩ := Option.map_eq_some_iff.mp h
         simp only [Prod.mk.injEq] at he
         obtain ⟨_, rfl⟩ := he
         have := length_lt_of_readSet hr
         simp only [List.length_cons] at this ⊢
         omega)

/-- Bytes that mean more than themselves in a pattern. -/
def isSpecial (b : UInt8) : Bool :=
  b == star || b == question || b == openBracket || b == backslash

/-- Tries the pattern `p`, which starts with `next`, at one place of the path
after another. `any` says whether the star before it may cross slashes. -/
def starSearch (deeper : List UInt8 → List UInt8 → Outcome) (any : Bool) (next : UInt8)
    (p : List UInt8) : List UInt8 → Outcome
  | [] =>
      if isSpecial next || next == 0 then
        let r := deeper p []
        if r ≠ .mismatch ∧ (!any ∨ r ≠ .segmentEnd) then r else .exhausted
      else .mismatch
  | t :: more =>
      let stops := (!any && t == slash) || t == next
      if !isSpecial next && !stops then
        if more.isEmpty then .mismatch else starSearch deeper any next p more
      else if !isSpecial next && t != next then .mismatch
      else
        let r := deeper p (t :: more)
        if r ≠ .mismatch ∧ (!any ∨ r ≠ .segmentEnd) then r
        else if r = .mismatch ∧ !any ∧ t = slash then .segmentEnd
        else if more.isEmpty then .exhausted
        else starSearch deeper any next p more

/-- The path after its first slash. -/
def afterSlash? (t : List UInt8) : Option (List UInt8) :=
  match t.dropWhile (· != slash) with
  | [] => none
  | _ :: rest => some rest

theorem length_dropWhile_le (p : UInt8 → Bool) (bs : List UInt8) :
    (bs.dropWhile p).length ≤ bs.length :=
  (List.dropWhile_suffix p).length_le

/-- Matches pattern `p` against path `t`, where `prev` is the pattern byte before
`p`. One more star deep, `deeper` takes over. -/
def scan (deeper : List UInt8 → List UInt8 → Outcome) (prev : Option UInt8)
    (p t : List UInt8) : Outcome :=
  match p with
  | [] => if t.isEmpty then .matched else .mismatch
  | c :: rest =>
      if c == star then
        let run := rest.dropWhile (· == star)
        let doubled := rest.head? == some star
        let bounded := prev.isNone || prev == some slash
        let closes :=
          match run with
          | [] => true
          | n :: after => n == slash || (n == backslash && after.head? == some slash)
        let any := doubled && bounded && closes
        if any && !run.isEmpty && deeper run.tail t = .matched then .matched
        else
          match h : run with
          | [] => if !any && t.contains slash then .mismatch else .matched
          | n :: after =>
              if !any && n == slash then
                have : after.length < rest.length + 1 := by
                  have := length_dropWhile_le (· == star) rest
                  simp only [show rest.dropWhile (· == star) = n :: after from h,
                    List.length_cons] at this
                  omega
                match afterSlash? t with
                | none => .mismatch
                | some t' => scan deeper (some slash) after t'
              else starSearch deeper any n (n :: after) t
      else
        match t with
        | [] => .exhausted
        | b :: more =>
            if c == backslash then
              match rest with
              | [] => .mismatch
              | d :: after => if d == b then scan deeper (some d) after more else .mismatch
            else if c == question then
              if b == slash then .mismatch else scan deeper (some c) rest more
            else if c == openBracket then
              match h : bracketTakes? b rest with
              | none => .exhausted
              | some (takes, after) =>
                  have : after.length < rest.length + 1 :=
                    Nat.lt_succ_of_lt (length_lt_of_bracketTakes h)
                  if takes then scan deeper (some closeBracket) after more else .mismatch
            else if c == b then scan deeper (some c) rest more
            else .mismatch
termination_by p.length

/-- Matches with at most `depth` nested stars. -/
def matchDepth : Nat → List UInt8 → List UInt8 → Outcome
  | 0, _, _ => .tooDeep
  | n + 1, p, t => scan (matchDepth n) none p t

/-- Whether a pattern selects a path. -/
def selects (pattern path : String) : Bool :=
  matchDepth 64 (Text.utf8 pattern) (Text.utf8 path) = .matched

end ViewPress.Glob
