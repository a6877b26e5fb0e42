import ViewPress.Proofs.Acceptance

/-!
# What may come next

A reader of tokens is described here by what it still has to read: an agenda, that is a
list of goals, the next one first. A token is taken by the first goal that can start
with it, where a goal that may be left out is passed over if it cannot; what is left of
the goal stays on the agenda. So the agenda after some tokens is a function of these
tokens alone. A token that no goal takes is refused, and so is the end of the tokens if
a goal is left that cannot be passed over.

Every agenda can be finished: `completion` gives tokens that go through it. And the
parser follows the agenda. `Tracks` says that a parsing function, begun with certain
goals in front, ends with certain others if it succeeds, and that it fails only at a
token that the agenda refuses, whatever other goals are waiting behind. The proof for
each function follows its `do` block, as in the proofs of what the parser accepts. The
look-ahead of the parser shows in one place only: it drops a goal that may be left out
as soon as it sees a token that the goal does not start with, while the agenda keeps it
until that token is taken. `Leads` compares agendas up to this difference.

Budgets are enough if they cover the lexemes that are left, so no failure below comes
from a loop that has run out of its budget.
-/

namespace ViewPress.Source

/-! ## Agendas -/

/-- The tokens that a phrase cannot do without, other than words that start it. -/
inductive Mark where
  | openBracket
  | closeBracket
  | openBrace
  | closeBrace
  | semicolon
  | wordIn

def Mark.token : Mark → Token
  | .openBracket => .punct '['
  | .closeBracket => .punct ']'
  | .openBrace => .punct '{'
  | .closeBrace => .punct '}'
  | .semicolon => .punct ';'
  | .wordIn => .ident "in"

inductive Goal where
  | mark (m : Mark)
  /-- Any identifier. -/
  | ident
  /-- Any string. -/
  | str
  /-- The further segments of a name. -/
  | dots
  /-- A mark in front of a condition. -/
  | bang
  /-- The arguments of an attribute with their parentheses. -/
  | parens
  /-- Arguments up to and with the closing parenthesis. -/
  | args
  /-- The same from after an argument. -/
  | furtherArgs
  /-- The bases with the colon in front of them. -/
  | heritage
  /-- Bases from after another. -/
  | furtherBases
  /-- The `else` part of a branch. -/
  | otherwise
  /-- A declaration with its attributes. -/
  | declaration
  /-- The members of a declaration up to and with its closing brace. -/
  | members
  /-- Statements up to and with the brace that closes their block. -/
  | body

namespace Goal

/-- Whether the goal may be left out. -/
def optional : Goal → Bool
  | dots | bang | parens | heritage | furtherBases | otherwise => true
  | _ => false

/-- What is left of a goal after a token that it can start with. -/
def next (t : Token) : Goal → Option (List Goal)
  | mark m => if t = m.token then some [] else none
  | ident => match t with
      | .ident _ => some []
      | _ => none
  | str => match t with
      | .str _ => some []
      | _ => none
  | dots => if t = .punct '.' then some [ident, dots] else none
  | bang => if t = .punct '!' then some [] else none
  | parens => if t = .punct '(' then some [args] else none
  | args =>
      if t = .punct ')' then some []
      else match t with
        | .str _ => some [furtherArgs]
        | _ => none
  | furtherArgs =>
      if t = .punct ')' then some []
      else if t = .punct ',' then some [args]
      else none
  | heritage => if t = .punct ':' then some [ident, dots, furtherBases] else none
  | furtherBases => if t = .punct ',' then some [ident, dots, furtherBases] else none
  | otherwise => if t = .ident "else" then some [mark .openBrace, body] else none
  | declaration =>
      if t = .punct '#' then
        some [mark .openBracket, ident, dots, parens, mark .closeBracket, declaration]
      else if t = .ident "class" ∨ t = .ident "interface" then
        some [ident, dots, heritage, mark .openBrace, members]
      else none
  | members =>
      if t = .punct '}' then some []
      else if t = .ident "render" then some [mark .openBrace, body, mark .closeBrace]
      else none
  | body =>
      if t = .punct '}' then some []
      else if t = .ident "write" then some [str, mark .semicolon, body]
      else if t = .ident "emit" then some [ident, dots, mark .semicolon, body]
      else if t = .ident "if" then
        some [bang, ident, dots, mark .openBrace, body, otherwise, body]
      else if t = .ident "for" then
        some [ident, mark .wordIn, ident, dots, mark .openBrace, body, body]
      else none

/-- Tokens that go through the goal, none if it may be left out. -/
def completion : Goal → List Token
  | mark m => [m.token]
  | ident => [.ident "x"]
  | str => [.str ""]
  | args | furtherArgs => [.punct ')']
  | declaration => [.ident "class", .ident "x", .punct '{', .punct '}']
  | members | body => [.punct '}']
  | dots | bang | parens | heritage | furtherBases | otherwise => []

end Goal

/-- What is still to be read, the next goal first. With nothing left, another declaration
may follow. -/
abbrev Agenda := List Goal

namespace Agenda

def step : Agenda → Token → Option Agenda
  | [], t => Goal.declaration.next t
  | g :: gs, t =>
      match g.next t with
      | some new => some (new ++ gs)
      | none => if g.optional then step gs t else none

/-- The step to what comes next, which may be the end of the tokens. -/
def peek (gs : Agenda) : Option Token → Option Agenda
  | some t => step gs t
  | none => if gs.all Goal.optional then some [] else none

def run : Agenda → List Token → Option Agenda
  | gs, [] => some gs
  | gs, t :: ts => (step gs t).bind (run · ts)

/-! ## Completion -/

theorem run_append (gs : Agenda) (ts us : List Token) :
    run gs (ts ++ us) = (run gs ts).bind (run · us) := by
  induction ts generalizing gs with
  | nil => rfl
  | cons t ts ih =>
      rw [List.cons_append, run, run]
      cases step gs t with
      | none => rfl
      | some gs' => exact ih gs'

theorem step_of_optional {os : Agenda} {t : Token} (hos : ∀ o ∈ os, o.optional = true)
    (ht : ∀ o ∈ os, o.next t = none) (gs : Agenda) : step (os ++ gs) t = step gs t := by
  induction os with
  | nil => rfl
  | cons o os ih =>
      obtain ⟨ho, hos⟩ := List.forall_mem_cons.mp hos
      obtain ⟨hnext, ht⟩ := List.forall_mem_cons.mp ht
      rw [List.cons_append, step, hnext]
      dsimp only
      rw [if_pos ho]
      exact ih hos ht

/-- A goal that cannot be left out has a completion, whose first token is taken by no goal
that can. -/
theorem exists_completion_eq_cons {g : Goal} (h : g.optional = false) :
    ∃ t ts, g.completion = t :: ts ∧ ∀ o : Goal, o.optional = true → o.next t = none := by
  cases g with
  | dots | bang | parens | heritage | furtherBases | otherwise => cases h
  | mark m =>
      refine ⟨_, _, rfl, fun o ho => ?_⟩
      cases o with
      | dots | bang | parens | heritage | furtherBases | otherwise => cases m <;> rfl
      | mark | ident | str | args | furtherArgs | declaration | members | body => cases ho
  | ident | str | args | furtherArgs | declaration | members | body =>
      refine ⟨_, _, rfl, fun o ho => ?_⟩
      cases o with
      | dots | bang | parens | heritage | furtherBases | otherwise => rfl
      | mark | ident | str | args | furtherArgs | declaration | members | body => cases ho

theorem run_completion_cons {g : Goal} (h : g.optional = false) (gs : Agenda) (ts : List Token) :
    run (g :: gs) (g.completion ++ ts) = run gs ts := by
  cases g with
  | dots | bang | parens | heritage | furtherBases | otherwise => cases h
  | mark m =>
      rw [Goal.completion, List.singleton_append, run, step, Goal.next, if_pos rfl]
      rfl
  | ident | str | args | furtherArgs | declaration | members | body => rfl

def completion (gs : Agenda) : List Token :=
  gs.flatMap Goal.completion

/-- The completion of an agenda goes through it, also if goals that may be left out stand in
front. -/
theorem run_completion {os : Agenda} (hos : ∀ o ∈ os, o.optional = true) (gs : Agenda) :
    ∃ gs', run (os ++ gs) (completion gs) = some gs' ∧ gs'.all Goal.optional = true := by
  -- `os` holds the goals that were passed over since the last token
  induction gs generalizing os with
  | nil => exact ⟨os ++ [], rfl, by simpa using hos⟩
  | cons g gs ih =>
      rw [completion, List.flatMap_cons, ← completion]
      cases hg : g.optional with
      | true =>
          have hnil : g.completion = [] := by
            cases g with
            | dots | bang | parens | heritage | furtherBases | otherwise => rfl
            | mark | ident | str | args | furtherArgs | declaration | members | body => cases hg
          have hmore : ∀ o ∈ os ++ [g], o.optional = true := by
            simpa [or_imp, forall_and] using ⟨hos, hg⟩
          have hrun := ih hmore
          rwa [List.append_assoc, List.singleton_append, ← List.nil_append (completion gs),
            ← hnil] at hrun
      | false =>
          obtain ⟨t, ts, hcompletion, ht⟩ := exists_completion_eq_cons hg
          have hskip : run (os ++ g :: gs) (g.completion ++ completion gs)
              = run (g :: gs) (g.completion ++ completion gs) := by
            rw [hcompletion, List.cons_append, run, run,
              step_of_optional hos fun o ho => ht o (hos o ho)]
          have hnone : ∀ o ∈ ([] : Agenda), o.optional = true := nofun
          rw [hskip, run_completion_cons hg]
          exact ih hnone

/-! ## Following the agenda -/

/-- The token in front of what is left, or none at the end. -/
def ahead (ts : List Lexeme) : Option Token :=
  ts.head?.map Lexeme.token

/-- On the lexemes up to `rest` the first agenda comes to one that cannot be told from the
second by what is in front of `rest`. -/
def Leads (gs : Agenda) (ts : List Lexeme) (gs' : Agenda) (rest : List Lexeme) : Prop :=
  ∃ us mid, ts = us ++ rest ∧ run gs (us.map Lexeme.token) = some mid ∧
    peek mid (ahead rest) = peek gs' (ahead rest)

/-- On the lexemes up to `rest` the agenda is followed, and what is in front of `rest` is
refused. -/
def Stops (gs : Agenda) (ts rest : List Lexeme) : Prop :=
  ∃ us mid, ts = us ++ rest ∧ run gs (us.map Lexeme.token) = some mid ∧
    peek mid (ahead rest) = none

theorem Leads.refl (gs : Agenda) (ts : List Lexeme) : Leads gs ts gs ts :=
  ⟨[], gs, rfl, rfl, rfl⟩

/-- Agendas that agree on what is in front agree on a run up to what is left of it. -/
theorem exists_run_of_peek {gs gs' mid : Agenda} {us rest : List Lexeme}
    (hpeek : peek gs (ahead (us ++ rest)) = peek gs' (ahead (us ++ rest)))
    (hrun : run gs' (us.map Lexeme.token) = some mid) :
    ∃ mid', run gs (us.map Lexeme.token) = some mid' ∧
      peek mid' (ahead rest) = peek mid (ahead rest) := by
  cases us with
  | nil =>
      cases hrun
      exact ⟨gs, rfl, hpeek⟩
  | cons l us =>
      -- the first token is taken by the same goal of both
      refine ⟨mid, ?_, rfl⟩
      rw [List.map_cons, run] at hrun ⊢
      rwa [show step gs l.token = step gs' l.token from hpeek]

theorem Leads.trans {gs gs' gs'' : Agenda} {ts us rest : List Lexeme} (h : Leads gs ts gs' us)
    (h' : Leads gs' us gs'' rest) : Leads gs ts gs'' rest := by
  obtain ⟨us, mid, rfl, hrun, hpeek⟩ := h
  obtain ⟨vs, mid', rfl, hrun', hpeek'⟩ := h'
  obtain ⟨last, hlast, hagree⟩ := exists_run_of_peek hpeek hrun'
  refine ⟨us ++ vs, last, (List.append_assoc _ _ _).symm, ?_, hagree.trans hpeek'⟩
  rw [List.map_append, run_append, hrun]
  exact hlast

theorem Leads.stops {gs gs' : Agenda} {ts us rest : List Lexeme} (h : Leads gs ts gs' us)
    (h' : Stops gs' us rest) : Stops gs ts rest := by
  obtain ⟨vs, mid, rfl, hrun, hpeek⟩ := h'
  have hleads : Leads gs' (vs ++ rest) mid rest := ⟨vs, mid, rfl, hrun, rfl⟩
  obtain ⟨us, last, hts, hlast, hagree⟩ := h.trans hleads
  exact ⟨us, last, hts, hlast, hagree.trans hpeek⟩

/-- The goal in front takes a token. -/
theorem leads_of_next {g : Goal} {new : List Goal} {l : Lexeme} (h : g.next l.token = some new)
    (gs : Agenda) (ts : List Lexeme) : Leads (g :: gs) (l :: ts) (new ++ gs) ts := by
  refine ⟨[l], new ++ gs, rfl, ?_, rfl⟩
  rw [List.map_singleton, run, step, h]
  rfl

/-- A goal that may be left out is, since something else is in front. -/
theorem leads_of_optional {g : Goal} {ts : List Lexeme} (hg : g.optional = true)
    (h : ∀ t ∈ ahead ts, g.next t = none) (gs : Agenda) : Leads (g :: gs) ts gs ts := by
  refine ⟨[], g :: gs, rfl, rfl, ?_⟩
  cases ht : ahead ts with
  | none => rw [peek, peek, List.all_cons, hg, Bool.true_and]
  | some t =>
      rw [peek, peek, step, h t ht]
      exact if_pos hg

/-- A goal that cannot be left out refuses what it does not start with. -/
theorem stops_of_next {g : Goal} {ts : List Lexeme} (hg : g.optional = false)
    (h : ∀ t ∈ ahead ts, g.next t = none) (gs : Agenda) : Stops (g :: gs) ts ts := by
  refine ⟨[], g :: gs, rfl, rfl, ?_⟩
  cases ht : ahead ts with
  | none => rw [peek, List.all_cons, hg, Bool.false_and, if_neg Bool.false_ne_true]
  | some t =>
      rw [peek, step, h t ht]
      exact if_neg (by rw [hg]; exact Bool.false_ne_true)

/-- A parsing function follows the agenda: it goes from the goals `gs` in front to `gs'`, or
fails where they stop, whatever is behind them. -/
structure Tracks {α : Type} (outcome : Except Rejection (α × List Lexeme)) (ts : List Lexeme)
    (gs gs' : List Goal) : Prop where
  leads : ∀ {a : α} {rest : List Lexeme}, outcome = .ok (a, rest) →
    ∀ behind, Leads (gs ++ behind) ts (gs' ++ behind) rest
  stops : ∀ {r : Rejection}, outcome = .error r → ∀ behind, Stops (gs ++ behind) ts r.rest

variable {α β : Type} {ts us rest : List Lexeme} {gs gs' new more : List Goal}

theorem Tracks.ok (a : α) (ts : List Lexeme) (gs : List Goal) : Tracks (.ok (a, ts)) ts gs gs where
  leads h behind := by
    cases h
    exact .refl _ _
  stops h := by cases h

/-- Goals that were gone through before. -/
theorem Tracks.after {outcome : Except Rejection (α × List Lexeme)}
    (hleads : ∀ behind, Leads (gs ++ behind) ts (more ++ behind) us)
    (h : Tracks outcome us more gs') : Tracks outcome ts gs gs' where
  leads hok behind := (hleads behind).trans (h.leads hok behind)
  stops herror behind := (hleads behind).stops (h.stops herror behind)

/-- One part after the other: the second has the goals behind those of the first. -/
theorem Tracks.bind {outcome : Except Rejection (α × List Lexeme)}
    {f : α × List Lexeme → Except Rejection (β × List Lexeme)} (h : Tracks outcome ts gs new)
    (hf : ∀ a us, outcome = .ok (a, us) → Tracks (f (a, us)) us (new ++ more) gs') :
    Tracks (outcome >>= f) ts (gs ++ more) gs' := by
  cases houtcome : outcome with
  | error r =>
      refine ⟨nofun, fun herror behind => ?_⟩
      cases herror
      rw [List.append_assoc]
      exact h.stops houtcome _
  | ok p =>
      obtain ⟨a, us⟩ := p
      refine (hf a us houtcome).after fun behind => ?_
      rw [List.append_assoc, List.append_assoc]
      exact h.leads houtcome _

theorem Tracks.take {outcome : Except Rejection (α × List Lexeme)} {g : Goal} {l : Lexeme}
    (hg : g.next l.token = some new) (h : Tracks outcome ts (new ++ more) gs') :
    Tracks outcome (l :: ts) (g :: more) gs' := by
  refine h.after fun behind => ?_
  rw [List.append_assoc]
  exact leads_of_next hg _ _

theorem Tracks.skip {outcome : Except Rejection (α × List Lexeme)} {g : Goal}
    (hg : g.optional = true) (hnext : ∀ t ∈ ahead ts, g.next t = none)
    (h : Tracks outcome ts more gs') : Tracks outcome ts (g :: more) gs' :=
  h.after fun behind => leads_of_optional hg hnext (more ++ behind)

theorem Tracks.error {g : Goal} {r : Rejection} (hg : g.optional = false)
    (hnext : ∀ t ∈ ahead r.rest, g.next t = none) (more gs' : List Goal) :
    Tracks (.error r : Except Rejection (α × List Lexeme)) r.rest (g :: more) gs' where
  leads h := by cases h
  stops h behind := by
    cases h
    exact stops_of_next hg hnext (more ++ behind)

theorem Leads.length_le {gs gs' : Agenda} (h : Leads gs ts gs' rest) :
    rest.length ≤ ts.length := by
  obtain ⟨us, -, rfl, -, -⟩ := h
  rw [List.length_append]
  exact Nat.le_add_left _ _

theorem Tracks.length_le {outcome : Except Rejection (α × List Lexeme)} {a : α}
    (h : Tracks outcome ts gs gs') (hok : outcome = .ok (a, rest)) : rest.length ≤ ts.length :=
  (h.leads hok []).length_le

/-! ## Single tokens -/

theorem exists_of_mem_ahead {t : Token} (h : t ∈ ahead ts) :
    ∃ span rest, ts = ⟨t, span⟩ :: rest := by
  obtain ⟨l, hl, rfl⟩ := Option.map_eq_some_iff.mp h
  obtain ⟨rest, rfl⟩ := List.head?_eq_some_iff.mp hl
  exact ⟨l.span, rest, rfl⟩

theorem tracks_reject {g : Goal} (hg : g.optional = false)
    (hnext : ∀ t ∈ ahead ts, g.next t = none) (what : Expected) (more gs' : List Goal) :
    Tracks (reject what ts : Except Rejection (α × List Lexeme)) ts (g :: more) gs' :=
  Tracks.error (r := ⟨.expected what, ts⟩) hg hnext more gs'

/-- Something else than `u` is in front. -/
theorem ne_of_mem_ahead {u : Token} (h : ∀ span rest, ts = ⟨u, span⟩ :: rest → False) {t : Token}
    (ht : t ∈ ahead ts) : t ≠ u := by
  rintro rfl
  obtain ⟨span, rest, rfl⟩ := exists_of_mem_ahead ht
  exact h span rest rfl

theorem expectPunct_tracks_goal {g : Goal} {c : Char} (hg : g.optional = false)
    (hc : g.next (.punct c) = some []) (hother : ∀ t ∈ ahead ts, t ≠ .punct c → g.next t = none) :
    Tracks (expectPunct c ts) ts [g] [] := by
  unfold expectPunct
  split
  · next d span rest =>
      split
      · next hd =>
          subst hd
          exact .take hc (.ok _ _ _)
      · next hd =>
          refine tracks_reject hg (fun t ht => hother t ht ?_) _ _ _
          cases ht
          exact fun heq => hd (Token.punct.inj heq)
  · next hshape =>
      exact tracks_reject hg
        (fun t ht => hother t ht (ne_of_mem_ahead (fun span rest => hshape c span rest) ht)) _ _ _

theorem expectPunct_tracks {m : Mark} {c : Char} (hm : m.token = .punct c) (ts : List Lexeme) :
    Tracks (expectPunct c ts) ts [.mark m] [] :=
  expectPunct_tracks_goal rfl (if_pos hm.symm) fun _ _ ht => if_neg fun heq => ht (heq.trans hm)

/-- No identifier is in front. -/
theorem next_ident_of_ahead (h : ∀ x span rest, ts = ⟨.ident x, span⟩ :: rest → False) {t : Token}
    (ht : t ∈ ahead ts) : Goal.ident.next t = none := by
  cases t with
  | ident x => exact absurd rfl (ne_of_mem_ahead (h x) ht)
  | str | punct => rfl

theorem expectIdent_tracks (ts : List Lexeme) : Tracks (expectIdent ts) ts [.ident] [] := by
  unfold expectIdent
  split
  · exact .take rfl (.ok _ _ _)
  · next hother => exact tracks_reject rfl (fun _ => next_ident_of_ahead hother) _ _ _

theorem expectString_tracks (ts : List Lexeme) : Tracks (expectString ts) ts [.str] [] := by
  unfold expectString
  split
  · exact .take rfl (.ok _ _ _)
  · next hother =>
      refine tracks_reject rfl (fun t ht => ?_) _ _ _
      cases t with
      | str text => exact absurd rfl (ne_of_mem_ahead (hother text) ht)
      | ident | punct => rfl

theorem expectIn_tracks (ts : List Lexeme) : Tracks (expectIn ts) ts [.mark .wordIn] [] := by
  unfold expectIn
  split
  · next name span rest =>
      split
      · next hname =>
          subst hname
          exact .take rfl (.ok _ _ _)
      · next hname =>
          refine tracks_reject rfl (fun t ht => ?_) _ _ _
          cases ht
          exact if_neg fun heq => hname (Token.ident.inj heq)
  · next hother =>
      refine tracks_reject rfl ?_ _ _ _
      exact fun t ht => if_neg (ne_of_mem_ahead (hother "in") ht)

theorem expectPunct_length {c : Char} {span : Span} (h : expectPunct c ts = .ok (span, rest)) :
    ts.length = rest.length + 1 := by
  rw [expectPunct_eq h, List.length_cons]

/-! ## Names -/

theorem parseSegments_tracks (stop : Nat) (ts : List Lexeme) :
    Tracks (parseSegments stop ts) ts [.dots] [] := by
  fun_induction parseSegments stop ts with
  | case1 stop span name span' ts ih =>
      refine .take rfl (.take rfl ?_)
      exact ih.bind fun _ _ _ => .ok _ _ _
  | case2 stop span rest hother =>
      exact .take rfl (tracks_reject rfl (fun _ => next_ident_of_ahead hother) _ _ _)
  | case3 stop ts _ hother =>
      exact .skip rfl (fun t ht => if_neg (ne_of_mem_ahead hother ht)) (.ok _ _ _)

theorem parseDotted_tracks (ts : List Lexeme) :
    Tracks (parseDotted ts) ts [.ident, .dots] [] :=
  (expectIdent_tracks ts).bind fun _ us _ =>
    (parseSegments_tracks _ us).bind fun _ _ _ => .ok _ _ _

theorem parsePath_tracks (ts : List Lexeme) : Tracks (parsePath ts) ts [.ident, .dots] [] :=
  (parseDotted_tracks ts).bind fun _ _ _ => .ok _ _ _

/-! ## Attributes and bases -/

theorem parseArgs_tracks (ts : List Lexeme) : Tracks (parseArgs ts) ts [.args] [] := by
  fun_induction parseArgs ts with
  | case1 span rest => exact .take rfl (.ok _ _ _)
  | case2 text span span' rest ih =>
      refine .take rfl (.take rfl ?_)
      exact ih.bind fun _ _ _ => .ok _ _ _
  | case3 text span rest hcomma =>
      have hclose : Tracks (expectPunct ')' rest) rest [.furtherArgs] [] := by
        refine expectPunct_tracks_goal rfl rfl fun t ht hne => (if_neg hne).trans (if_neg ?_)
        exact ne_of_mem_ahead hcomma ht
      exact .take rfl (hclose.bind fun _ _ _ => .ok _ _ _)
  | case4 ts hclose hcomma hstr =>
      refine tracks_reject rfl ?_ _ _ _
      intro t ht
      refine (if_neg (ne_of_mem_ahead hclose ht)).trans ?_
      cases t with
      | str text => exact absurd rfl (ne_of_mem_ahead (hstr text) ht)
      | ident | punct => rfl

theorem parseParens_tracks (ts : List Lexeme) : Tracks (parseParens ts) ts [.parens] [] := by
  unfold parseParens
  split
  · exact .take rfl (parseArgs_tracks _)
  · next hother =>
      exact .skip rfl (fun t ht => if_neg (ne_of_mem_ahead hother ht)) (.ok _ _ _)

theorem parseAttribute_tracks (start : Nat) (ts : List Lexeme) :
    Tracks (parseAttribute start ts) ts
      [.mark .openBracket, .ident, .dots, .parens, .mark .closeBracket] [] := by
  refine (expectPunct_tracks rfl ts).bind fun _ us _ => ?_
  refine (parseDotted_tracks us).bind fun _ vs _ => ?_
  refine (parseParens_tracks vs).bind fun _ ws _ => ?_
  exact (expectPunct_tracks rfl ws).bind fun _ _ _ => .ok _ _ _

theorem parseAttributes_tracks (n : Nat) (ts : List Lexeme) :
    Tracks (parseAttributes n ts) ts [.declaration] [.declaration] := by
  fun_induction parseAttributes n ts with
  | case1 n span rest ih =>
      refine .take rfl ((parseAttribute_tracks span.start rest).bind fun _ us _ => ?_)
      exact (ih us).bind fun _ _ _ => .ok _ _ _
  | case2 n ts _ => exact .ok _ _ _

/-- The attributes are read up to the last, if the budget covers the lexemes. -/
theorem parseAttributes_eq_ok {n : Nat} {as : List Attribute} (hn : ts.length ≤ n)
    (h : parseAttributes n ts = .ok (as, rest)) :
    ∀ span more, rest = ⟨.punct '#', span⟩ :: more → False := by
  fun_induction parseAttributes n ts generalizing as with
  | case1 n span us ih =>
      obtain ⟨⟨a, vs⟩, ha, h⟩ := exists_ok_of_bind h
      obtain ⟨⟨as, ws⟩, has, h⟩ := exists_ok_of_bind h
      cases h
      have hlen := (parseAttribute_tracks span.start us).length_le ha
      rw [List.length_cons] at hn
      exact ih vs (by omega) has
  | case2 n ts hother =>
      cases h
      rintro span more rfl
      rw [List.length_cons] at hn
      obtain ⟨m, rfl⟩ : ∃ m, n = m + 1 := ⟨n - 1, by omega⟩
      exact hother m span more rfl rfl

theorem parseBases_tracks {n : Nat} (hn : ts.length ≤ n) :
    Tracks (parseBases n ts) ts [.ident, .dots, .furtherBases] [] := by
  induction n generalizing ts with
  | zero =>
      obtain rfl := List.eq_nil_of_length_eq_zero (Nat.le_zero.mp hn)
      refine tracks_reject rfl ?_ _ _ _
      intro t ht
      cases ht
  | succ n ih =>
      refine (parseDotted_tracks ts).bind fun _ us hdotted => ?_
      have hlen := (parseDotted_tracks ts).length_le hdotted
      dsimp only
      split
      · next span vs =>
          rw [List.length_cons] at hlen
          have hvs : vs.length ≤ n := by omega
          exact .take rfl ((ih hvs).bind fun _ _ _ => .ok _ _ _)
      · next hother =>
          exact .skip rfl (fun t ht => if_neg (ne_of_mem_ahead hother ht)) (.ok _ _ _)

theorem parseHeritage_tracks {n : Nat} (hn : ts.length ≤ n) :
    Tracks (parseHeritage n ts) ts [.heritage] [] := by
  unfold parseHeritage
  split
  · exact .take rfl (parseBases_tracks (Nat.le_of_succ_le hn))
  · next hother =>
      exact .skip rfl (fun t ht => if_neg (ne_of_mem_ahead hother ht)) (.ok _ _ _)

/-! ## Statements -/

theorem takeBang_leads (ts : List Lexeme) (gs : Agenda) :
    Leads (.bang :: gs) ts gs (takeBang ts).2 := by
  unfold takeBang
  split
  · next span rest =>
      have hbang : Goal.bang.next (.punct '!') = some [] := rfl
      exact leads_of_next (l := ⟨.punct '!', span⟩) hbang gs rest
  · next hother =>
      refine leads_of_optional rfl ?_ gs
      exact fun t ht => if_neg (ne_of_mem_ahead hother ht)

theorem takeBang_tracks {outcome : Except Rejection (α × List Lexeme)}
    (h : Tracks outcome (takeBang ts).2 more gs') : Tracks outcome ts (.bang :: more) gs' :=
  h.after fun behind => takeBang_leads ts (more ++ behind)

/-- What was taken is no longer there. -/
theorem length_lt_of_took {taken : List Token} {spans : List Span} {nodes : List (List Token)}
    (h : Took ts rest taken spans nodes) (hne : taken ≠ []) : rest.length < ts.length := by
  obtain ⟨us, rfl, rfl, -⟩ := h
  rw [List.length_append]
  have hus : us ≠ [] := by
    rintro rfl
    exact hne rfl
  have := List.length_pos_of_ne_nil hus
  omega

theorem parseStatement_length_lt {n : Nat} {s : Statement}
    (h : parseStatement n ts = .ok (s, rest)) : rest.length < ts.length := by
  obtain ⟨d, -, htook⟩ := parseStatement_took h
  refine length_lt_of_took htook ?_
  cases d <;> simp [Derivation.Statement.tokens]

mutual

theorem parseStatements_tracks {n : Nat} {ts : List Lexeme} (hn : ts.length < n) :
    Tracks (parseStatements n ts) ts [.body] [] := by
  unfold parseStatements
  split
  · cases hn
  · exact .take rfl (.ok _ _ _)
  · next n hclose =>
      have hstatement := parseStatement_tracks (Nat.le_of_lt_succ hn) hclose
      refine hstatement.bind fun s us hs => ?_
      have hlen := parseStatement_length_lt hs
      exact (parseStatements_tracks (by omega)).bind fun _ _ _ => .ok _ _ _

theorem parseStatement_tracks {n : Nat} {ts : List Lexeme} (hn : ts.length ≤ n)
    (hclose : ∀ span rest, ts = ⟨.punct '}', span⟩ :: rest → False) :
    Tracks (parseStatement n ts) ts [.body] [.body] := by
  unfold parseStatement
  split
  · obtain rfl := List.eq_nil_of_length_eq_zero (Nat.le_zero.mp hn)
    refine tracks_reject rfl ?_ _ _ _
    intro t ht
    cases ht
  next n word span us =>
    have hus : us.length ≤ n := Nat.le_of_succ_le_succ hn
    split
    · next hword =>
        subst hword
        refine .take rfl ((expectString_tracks us).bind fun _ vs _ => ?_)
        exact (expectPunct_tracks rfl vs).bind fun _ _ _ => .ok _ _ _
    split
    · next hword =>
        subst hword
        refine .take rfl ((parsePath_tracks us).bind fun _ vs _ => ?_)
        exact (expectPunct_tracks rfl vs).bind fun _ _ _ => .ok _ _ _
    split
    · next hword =>
        subst hword
        have hbang := (takeBang_leads us []).length_le
        refine .take rfl (takeBang_tracks ?_)
        refine (parsePath_tracks (takeBang us).2).bind fun _ ws hpath => ?_
        have hpath := (parsePath_tracks (takeBang us).2).length_le hpath
        refine (expectPunct_tracks rfl ws).bind fun _ xs hopen => ?_
        have hopen := expectPunct_length hopen
        refine (parseStatements_tracks (by omega)).bind fun _ ys hyes => ?_
        have hyes := (parseStatements_tracks (by omega)).length_le hyes
        dsimp only
        split
        · next zs _ =>
            refine .take rfl ((expectPunct_tracks rfl zs).bind fun _ us hopen => ?_)
            have hopen := expectPunct_length hopen
            rw [List.length_cons] at hyes
            have hus : us.length < n := by omega
            exact (parseStatements_tracks hus).bind fun _ _ _ => .ok _ _ _
        · next hother =>
            exact .skip rfl (fun t ht => if_neg (ne_of_mem_ahead hother ht)) (.ok _ _ _)
    split
    · next hword =>
        subst hword
        refine .take rfl ((expectIdent_tracks us).bind fun _ vs hbinding => ?_)
        have hbinding := (expectIdent_tracks us).length_le hbinding
        refine (expectIn_tracks vs).bind fun _ ws hin => ?_
        have hin := (expectIn_tracks vs).length_le hin
        refine (parsePath_tracks ws).bind fun _ xs hpath => ?_
        have hpath := (parsePath_tracks ws).length_le hpath
        refine (expectPunct_tracks rfl xs).bind fun _ ys hopen => ?_
        have hopen := expectPunct_length hopen
        exact (parseStatements_tracks (by omega)).bind fun _ _ _ => .ok _ _ _
    · next hwrite hemit hif hfor =>
        refine tracks_reject rfl ?_ _ _ _
        intro t ht
        cases ht
        simp [Goal.next, hwrite, hemit, hif, hfor]
  · next hword =>
      refine tracks_reject rfl ?_ _ _ _
      intro t ht
      cases t with
      | ident word => exact absurd rfl (ne_of_mem_ahead (hword word) ht)
      | str => rfl
      | punct c =>
          have hc := ne_of_mem_ahead hclose ht
          simp [Goal.next, hc]

end

/-! ## Declarations -/

theorem parseMembers_tracks {n : Nat} (hn : ts.length ≤ n) :
    Tracks (parseMembers n ts) ts [.members] [] := by
  unfold parseMembers
  split
  · exact .take rfl (.ok _ _ _)
  · next span us =>
      refine .take rfl ((expectPunct_tracks rfl us).bind fun _ vs hopen => ?_)
      have hopen := expectPunct_length hopen
      rw [List.length_cons] at hn
      have hvs : vs.length < n := by omega
      refine (parseStatements_tracks hvs).bind fun _ ws _ => ?_
      dsimp only
      split
      · exact .take rfl (.ok _ _ _)
      · -- after one block only the closing brace is left to be read
        refine Tracks.error rfl ?_ _ _
        intro t ht
        cases ht
        rfl
      · next hclose _ =>
          refine tracks_reject rfl ?_ _ _ _
          exact fun t ht => if_neg (ne_of_mem_ahead hclose ht)
  · next hclose hrender =>
      refine tracks_reject rfl ?_ _ _ _
      intro t ht
      exact (if_neg (ne_of_mem_ahead hclose ht)).trans (if_neg (ne_of_mem_ahead hrender ht))

theorem parseKind_tracks (hhash : ∀ span rest, ts = ⟨.punct '#', span⟩ :: rest → False) :
    Tracks (parseKind ts) ts [.declaration]
      [.ident, .dots, .heritage, .mark .openBrace, .members] := by
  unfold parseKind
  split
  · exact .take rfl (.ok _ _ _)
  · exact .take rfl (.ok _ _ _)
  · next hclass hinterface =>
      refine tracks_reject rfl ?_ _ _ _
      intro t ht
      refine (if_neg (ne_of_mem_ahead hhash ht)).trans (if_neg ?_)
      exact not_or.mpr ⟨ne_of_mem_ahead hclass ht, ne_of_mem_ahead hinterface ht⟩

theorem parseDeclaration_tracks {n : Nat} (hn : ts.length ≤ n) :
    Tracks (parseDeclaration n ts) ts [.declaration] [] := by
  refine (parseAttributes_tracks n ts).bind fun _ us hattributes => ?_
  have hhash := parseAttributes_eq_ok hn hattributes
  have hus := (parseAttributes_tracks n ts).length_le hattributes
  refine (parseKind_tracks hhash).bind fun _ vs hkind => ?_
  have hvs := (parseKind_tracks hhash).length_le hkind
  refine (parseDotted_tracks vs).bind fun _ ws hdotted => ?_
  have hws := (parseDotted_tracks vs).length_le hdotted
  have hheritage : Tracks (parseHeritage n ws) ws [.heritage] [] :=
    parseHeritage_tracks (by omega)
  refine hheritage.bind fun _ xs hbases => ?_
  have hxs := hheritage.length_le hbases
  refine (expectPunct_tracks rfl xs).bind fun _ ys hopen => ?_
  have hys := expectPunct_length hopen
  have hmembers : Tracks (parseMembers n ys) ys [.members] [] :=
    parseMembers_tracks (by omega)
  exact hmembers.bind fun _ _ _ => .ok _ _ _

theorem parseDeclaration_length_lt {n : Nat} {d : Declaration}
    (h : parseDeclaration n ts = .ok (d, rest)) : rest.length < ts.length := by
  obtain ⟨d', -, htook⟩ := parseDeclaration_took h
  refine length_lt_of_took htook ?_
  simp [Derivation.Declaration.tokens]

/-- With something in front, nothing left means that a declaration follows. -/
theorem leads_declaration (hts : ts ≠ []) : Leads [] ts [.declaration] ts := by
  obtain ⟨l, ts, rfl⟩ := List.exists_cons_of_ne_nil hts
  refine ⟨[], [], rfl, rfl, ?_⟩
  change Goal.declaration.next l.token = step [.declaration] l.token
  rw [step]
  cases Goal.declaration.next l.token with
  | none => rfl
  | some new => exact congrArg some (List.append_nil new).symm

/-- Lexemes that are declarations follow the agenda to the end. -/
theorem leads_of_parseTypes {n : Nat} {types : List Declaration} (hn : ts.length < n)
    (h : parseTypes n ts = .ok types) : Leads [] ts [] [] := by
  fun_induction parseTypes n ts generalizing types with
  | case1 => exact .refl _ _
  | case2 => cases hn
  | case3 n ts hts ih =>
      obtain ⟨⟨d, us⟩, hd, h⟩ := exists_ok_of_bind h
      obtain ⟨types, htypes, -⟩ := exists_ok_of_bind h
      have hlen := parseDeclaration_length_lt hd
      have hdeclaration := (parseDeclaration_tracks (Nat.le_of_lt_succ hn)).leads hd []
      have hmore := ih us (by omega) htypes
      exact ((leads_declaration hts).trans hdeclaration).trans hmore

/-- Lexemes that are not stop it where they are rejected. -/
theorem stops_of_parseTypes {n : Nat} {r : Rejection} (hn : ts.length < n)
    (h : parseTypes n ts = .error r) : Stops [] ts r.rest := by
  fun_induction parseTypes n ts with
  | case1 => cases h
  | case2 => cases hn
  | case3 n ts hts ih =>
      have htracks := parseDeclaration_tracks (Nat.le_of_lt_succ hn)
      obtain hd | ⟨⟨d, us⟩, hd, h⟩ := error_or_exists_ok_of_bind h
      · exact (leads_declaration hts).stops (htracks.stops hd [])
      · obtain htypes | ⟨types, -, h⟩ := error_or_exists_ok_of_bind h
        · have hlen := parseDeclaration_length_lt hd
          have hmore := ih us (by omega) htypes
          exact ((leads_declaration hts).trans (htracks.leads hd [])).stops hmore
        · cases h

end Agenda

end ViewPress.Source
