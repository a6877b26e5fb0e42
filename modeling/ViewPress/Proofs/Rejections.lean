import ViewPress.Proofs.Expectations
import ViewPress.Proofs.Locations

/-!
# Where a source is rejected

A source that is not accepted is rejected as early as it can be. What stands before the
reported place is the beginning of an accepted source; with the offending token added, or
the end of the source where that is found, it is the beginning of none.

The agendas of `Expectations.lean` decide both. They are followed up to the reported place,
and a completion of what is left on them makes the beginning into a source that is
accepted: its tokens are written with blanks between them, and the parser, which answers
for every text, has no place left at which to reject it. A source that goes on with the
offending token cannot be accepted, because the agenda it would have to follow refuses the
token. What remains is to find these tokens by their offsets, which is read off from how
the lexer lays them out.
-/

namespace ViewPress.Source

open Text (byteSize byteSize_append)

/-! ## Acceptance by agenda -/

namespace Agenda

/-- The tokens go through the agenda of a whole source, which may end behind them. -/
def Accepts (tokens : List Token) : Prop :=
  ∃ gs, run [] tokens = some gs ∧ gs.all Goal.optional = true

theorem peek_ne_none_of_run {gs gs' : Agenda} {t : Token} {ts : List Token}
    (h : run gs (t :: ts) = some gs') : peek gs (some t) ≠ none := by
  obtain ⟨mid, hstep, -⟩ := Option.bind_eq_some_iff.mp h
  rw [peek, hstep]
  exact Option.some_ne_none _

theorem peek_none_ne_none {gs : Agenda} (h : gs.all Goal.optional = true) :
    peek gs none ≠ none := by
  rw [peek, if_pos h]
  exact Option.some_ne_none _

/-- What an agenda is followed through, with the end behind it, is followed up to anything that
comes next in it. -/
theorem exists_run_of_prefix {gs last : Agenda} {before tokens : List Token}
    {found : Option Token} (hrun : run gs tokens = some last)
    (hlast : last.all Goal.optional = true)
    (h : before.map some ++ [found] <+: tokens.map some ++ [none]) :
    ∃ mid, run gs before = some mid ∧ peek mid found ≠ none := by
  induction before generalizing gs tokens with
  | nil =>
      cases tokens with
      | nil =>
          obtain ⟨rfl, -⟩ := List.cons_prefix_cons.mp h
          cases hrun
          exact ⟨_, rfl, peek_none_ne_none hlast⟩
      | cons t tokens =>
          obtain ⟨rfl, -⟩ := List.cons_prefix_cons.mp h
          exact ⟨gs, rfl, peek_ne_none_of_run hrun⟩
  | cons b before ih =>
      cases tokens with
      | nil =>
          obtain ⟨heq, -⟩ := List.cons_prefix_cons.mp h
          cases heq
      | cons t tokens =>
          obtain ⟨heq, hmore⟩ := List.cons_prefix_cons.mp h
          obtain rfl := Option.some.inj heq
          obtain ⟨gs', hstep, hrun⟩ := Option.bind_eq_some_iff.mp hrun
          obtain ⟨mid, hmid, hpeek⟩ := ih hrun hmore
          exact ⟨mid, by rw [run, hstep]; exact hmid, hpeek⟩

theorem accepts_of_parseLexemes {ts : List Lexeme} {types : List Declaration}
    (h : parseLexemes ts = .ok types) : Accepts (ts.map Lexeme.token) := by
  obtain ⟨us, mid, hts, hrun, hpeek⟩ := leads_of_parseTypes (Nat.lt_succ_self _) h
  rw [List.append_nil] at hts
  subst hts
  refine ⟨mid, hrun, ?_⟩
  by_contra hmid
  rw [ahead, List.head?_nil, Option.map_none, peek, if_neg hmid] at hpeek
  cases hpeek

theorem not_accepts_of_stops {ts rest : List Lexeme} (h : Stops [] ts rest) :
    ¬ Accepts (ts.map Lexeme.token) := by
  rintro ⟨gs, hrun, hgs⟩
  obtain ⟨us, mid, rfl, hmid, hpeek⟩ := h
  have hclosed : (us.map Lexeme.token).map some ++ [ahead rest]
      <+: ((us ++ rest).map Lexeme.token).map some ++ [none] := by
    cases rest with
    | nil => simp [ahead]
    | cons l rest => simp [ahead]
  obtain ⟨mid', hmid', hpeek'⟩ := exists_run_of_prefix hrun hgs hclosed
  rw [hmid] at hmid'
  cases hmid'
  exact hpeek' hpeek

end Agenda

/-! ## Accepted tokens -/

/-- The tokens are those of a source that is parsed. -/
def Accepted (path : String) (tokens : List Token) : Prop :=
  ∃ source tree, parse path source = .ok tree ∧ Tokenizes source tokens

/-- The token can be written. -/
def Token.Written (token : Token) : Prop :=
  ∃ body, Writes body token

theorem Laid.written {pos : Nat} {cs tail : List Char} {lexemes : List Lexeme}
    (h : Laid pos cs lexemes tail) {l : Lexeme} (hl : l ∈ lexemes) : l.token.Written := by
  induction h with
  | nil => cases hl
  | cons _ hbody _ _ ih =>
      rcases List.mem_cons.mp hl with rfl | hl
      · exact ⟨_, hbody⟩
      · exact ih hl

theorem written_of_mem_completion {gs : Agenda} {t : Token} (h : t ∈ gs.completion) :
    t.Written := by
  obtain ⟨g, -, ht⟩ := List.mem_flatMap.mp h
  have hident (name : String) (hname : Text.isIdent name.toList = true) :
      (Token.ident name).Written :=
    ⟨name.toList, by simpa using Writes.ident hname⟩
  have hpunct (c : Char) (hc : isPunct c = true) : (Token.punct c).Written := ⟨[c], .punct hc⟩
  cases g with
  | dots | bang | parens | heritage | furtherBases | otherwise => cases ht
  | mark m =>
      obtain rfl := List.mem_singleton.mp ht
      cases m with
      | wordIn => exact hident _ (by decide)
      | openBracket | closeBracket | openBrace | closeBrace | semicolon =>
          exact hpunct _ (by decide)
  | ident =>
      obtain rfl := List.mem_singleton.mp ht
      exact hident _ (by decide)
  | str =>
      obtain rfl := List.mem_singleton.mp ht
      exact ⟨_, .str .close⟩
  | args | furtherArgs | members | body =>
      obtain rfl := List.mem_singleton.mp ht
      exact hpunct _ (by decide)
  | declaration =>
      simp only [Goal.completion, List.mem_cons, List.not_mem_nil, or_false] at ht
      rcases ht with rfl | rfl | rfl | rfl
      · exact hident _ (by decide)
      · exact hident _ (by decide)
      · exact hpunct _ (by decide)
      · exact hpunct _ (by decide)

theorem exists_tokenizes {tokens : List Token} (h : ∀ t ∈ tokens, t.Written) :
    ∃ source, Tokenizes source tokens := by
  suffices hspells : ∃ cs, Spells cs tokens by
    obtain ⟨cs, hcs⟩ := hspells
    exact ⟨String.ofList cs, tokenizes_iff_spells.mpr (by rwa [String.toList_ofList])⟩
  induction tokens with
  | nil => exact ⟨[], .nil⟩
  | cons t tokens ih =>
      obtain ⟨⟨body, hbody⟩, hmore⟩ := List.forall_mem_cons.mp h
      obtain ⟨cs, hcs⟩ := ih hmore
      -- the blank ends the token, should it be an identifier
      refine ⟨body ++ ' ' :: cs, .token hbody ?_ (.blank rfl hcs)⟩
      rintro x - c hc
      cases hc
      rfl

theorem accepted_of_accepts {path : String} {tokens : List Token}
    (hwritten : ∀ t ∈ tokens, t.Written) (h : Agenda.Accepts tokens) : Accepted path tokens := by
  obtain ⟨source, lexemes, stop, hlex, rfl⟩ := exists_tokenizes hwritten
  cases hparse : parseLexemes lexemes with
  | error r =>
      exact absurd h (Agenda.not_accepts_of_stops
        (Agenda.stops_of_parseTypes (Nat.lt_succ_self _) hparse))
  | ok types =>
      refine ⟨source, { path, source, types }, ?_, lexemes, stop, hlex, rfl⟩
      rw [parse, hlex, TokenStream.parse, hparse]

theorem Accepted.accepts {path : String} {tokens : List Token} (h : Accepted path tokens) :
    Agenda.Accepts tokens := by
  obtain ⟨source, tree, hparse, htokens⟩ := h
  obtain ⟨-, -, lexemes, stop, hlex, hlexemes⟩ := exists_parseLexemes_of_parse hparse
  obtain rfl := htokens.unique ⟨lexemes, stop, hlex, rfl⟩
  exact Agenda.accepts_of_parseLexemes hlexemes

/-- What an agenda is followed through is the beginning of an accepted source. -/
theorem exists_accepted_of_run {path : String} {tokens : List Token} {gs : Agenda}
    (hwritten : ∀ t ∈ tokens, t.Written) (h : Agenda.run [] tokens = some gs) :
    ∃ more, Accepted path (tokens ++ more) := by
  have hnone : ∀ o ∈ ([] : Agenda), o.optional = true := nofun
  obtain ⟨gs', hrun, hgs'⟩ := Agenda.run_completion hnone gs
  refine ⟨gs.completion, accepted_of_accepts ?_ ⟨gs', ?_, hgs'⟩⟩
  · intro t ht
    rcases List.mem_append.mp ht with ht | ht
    · exact hwritten t ht
    · exact written_of_mem_completion ht
  · rw [Agenda.run_append, h]
    exact hrun

/-- No accepted source goes on with what an agenda refuses. -/
theorem not_prefix_of_accepted {path : String} {before tokens : List Token} {gs : Agenda}
    {found : Option Token} (hrun : Agenda.run [] before = some gs)
    (hpeek : gs.peek found = none) (h : Accepted path tokens) :
    ¬ before.map some ++ [found] <+: tokens.map some ++ [none] := by
  intro hstarts
  obtain ⟨last, hlast, hoptional⟩ := h.accepts
  obtain ⟨mid, hmid, hne⟩ := Agenda.exists_run_of_prefix hlast hoptional hstarts
  obtain rfl := Option.some.inj (hrun.symm.trans hmid)
  exact hne hpeek

/-! ## Tokens by their offsets -/

/-- The tokens of the source that end at or before an offset. -/
def tokensBefore (source : String) (offset : Nat) : List Token :=
  ((TokenStream.ofSource source).lexemes.filter (·.span.stop ≤ offset)).map Lexeme.token

/-- The offset at which a reader stands that has `rest` of the lexemes left. -/
def Ending.offsetAt (ending : Ending) : List Lexeme → Nat
  | [] => ending.offset
  | l :: _ => l.span.start

/-- Lexemes that end before the reader stay, and those that it has left go. -/
theorem filter_stop_le {us rest : List Lexeme} {offset : Nat}
    (hus : ∀ l ∈ us, l.span.stop ≤ offset) (hrest : ∀ l ∈ rest, offset < l.span.stop) :
    (us ++ rest).filter (·.span.stop ≤ offset) = us := by
  have hleft : us.filter (·.span.stop ≤ offset) = us :=
    List.filter_eq_self.mpr fun l hl => decide_eq_true (hus l hl)
  have hright : rest.filter (·.span.stop ≤ offset) = [] :=
    List.filter_eq_nil_iff.mpr fun l hl => by simpa using hrest l hl
  rw [List.filter_append, hleft, hright, List.append_nil]

/-- Where a reader stands, the source is cut in two, and the tokens that it has read are those
before the cut. -/
theorem tokensBefore_offsetAt {source : String} {us rest : List Lexeme} {e : Ending}
    (h : TokenStream.ofSource source = { lexemes := us ++ rest, ending := e }) :
    (∃ before after, source.toList = before ++ after ∧ byteSize before = e.offsetAt rest) ∧
      tokensBefore source (e.offsetAt rest) = us.map Lexeme.token := by
  obtain ⟨text, tail, hcut, hlaid, hwithin, -⟩ := laid_of_lex h
  rw [tokensBefore, h]
  cases rest with
  | nil =>
      obtain ⟨gap, after, rfl, hoffset⟩ := hwithin
      rw [Nat.zero_add, ← byteSize_append] at hoffset
      refine ⟨⟨text ++ gap, after, by rw [hcut, List.append_assoc], hoffset.symm⟩, ?_⟩
      refine congrArg (List.map Lexeme.token) (filter_stop_le (fun l hl => ?_) nofun)
      have hbounds := (hlaid.bounds (List.mem_append_left [] hl)).2.2
      rw [hcut, byteSize_append text] at hbounds
      rw [Ending.offsetAt, hoffset, byteSize_append]
      omega
  | cons l rest =>
      obtain ⟨-, hrest, hbetween⟩ := List.pairwise_append.mp hlaid.pairwise
      obtain ⟨before, after, hcut, -, hafter⟩ := hlaid.exists_of_append
      refine ⟨?_, congrArg (List.map Lexeme.token) (filter_stop_le (fun m hm => ?_) ?_)⟩
      · cases hafter with
        | @cons _ gap body cs _ _ _ _ _ _ _ =>
            refine ⟨before ++ gap, body ++ cs, by rw [hcut, List.append_assoc], ?_⟩
            rw [byteSize_append, Ending.offsetAt, Nat.zero_add]
      · exact hbetween m hm l List.mem_cons_self
      · -- every lexeme that is left ends behind the start of the first
        intro m hm
        have hpos := (hafter.bounds hm).2.1
        rcases List.mem_cons.mp hm with rfl | hm
        · exact hpos
        · have hnext := (List.pairwise_cons.mp hrest).1 m hm
          have hl := (hafter.bounds List.mem_cons_self).2.1
          rw [Ending.offsetAt]
          omega

/-! ## Rejections -/

/-- A stream is rejected where a reader stands that has followed the agenda: at the fault of the
lexer, or because the agenda refuses what is found. -/
theorem exists_of_parse_eq_error {lexemes : List Lexeme} {ending : Ending} {message : String}
    {span : Span} (h : TokenStream.parse { lexemes, ending } = .error (message, span)) :
    ∃ us rest gs, lexemes = us ++ rest ∧ Agenda.run [] (us.map Lexeme.token) = some gs ∧
      span.start = ending.offsetAt rest ∧
      ((∃ error, ending = .fault error span ∧ message = error.message) ∨
        (rest = [] → ending = .eof span.start) ∧ gs.peek (Agenda.ahead rest) = none) := by
  cases hlexemes : parseLexemes lexemes with
  | ok types =>
      obtain ⟨us, gs, hus, hrun, -⟩ := Agenda.leads_of_parseTypes (Nat.lt_succ_self _) hlexemes
      rw [TokenStream.parse, hlexemes] at h
      cases ending with
      | eof stop => cases h
      | fault error span =>
          cases h
          exact ⟨us, [], gs, hus, hrun, rfl, .inl ⟨error, rfl, rfl⟩⟩
  | error r =>
      obtain ⟨us, gs, hus, hrun, hpeek⟩ :=
        Agenda.stops_of_parseTypes (Nat.lt_succ_self _) hlexemes
      refine ⟨us, r.rest, gs, hus, hrun, ?_⟩
      rw [TokenStream.parse, hlexemes] at h
      dsimp only at h
      split at h
      · next l rest hrest =>
          cases h
          rw [hrest] at hpeek ⊢
          exact ⟨rfl, .inr ⟨fun heq => absurd heq (List.cons_ne_nil l rest), hpeek⟩⟩
      · next stop hrest =>
          cases h
          rw [hrest] at hpeek ⊢
          exact ⟨rfl, .inr ⟨fun _ => rfl, hpeek⟩⟩
      · next error span hrest =>
          cases h
          rw [hrest]
          exact ⟨rfl, .inl ⟨error, rfl, rfl⟩⟩

/-- What stands at an offset of a source, a token or its end. -/
def FoundAt (source : String) (offset : Nat) : Option Token → Prop
  | some t => ∃ l ∈ (TokenStream.ofSource source).lexemes, l.token = t ∧ l.span.start = offset
  | none => (TokenStream.ofSource source).ending = .eof offset

/-- The diagnostic reports the fault that the lexer stopped at. -/
def ReportsFault (path source : String) (d : Diagnostic) : Prop :=
  ∃ error span, (TokenStream.ofSource source).ending = .fault error span ∧
    d = Diagnostic.ofSpan path source span error.message

theorem foundAt_offsetAt {source : String} {us rest : List Lexeme} {e : Ending}
    (h : TokenStream.ofSource source = { lexemes := us ++ rest, ending := e })
    (hend : rest = [] → e = .eof (e.offsetAt rest)) :
    FoundAt source (e.offsetAt rest) (Agenda.ahead rest) := by
  cases rest with
  | nil =>
      rw [Agenda.ahead, List.head?_nil, Option.map_none, FoundAt, h]
      exact hend rfl
  | cons l rest =>
      rw [Agenda.ahead, List.head?_cons, Option.map_some, FoundAt, h]
      exact ⟨l, List.mem_append_right us List.mem_cons_self, rfl, rfl⟩

/-- A source is rejected at the earliest place. The location that is reported denotes an
offset, and the tokens up to it are the beginning of a source that is accepted. Unless the
lexer has found a fault there, a token starts at the offset or the source ends at it, and no
accepted source begins with the tokens up to the offset followed by this token or this end. -/
theorem parse_rejects_earliest {path source : String} {d : Diagnostic}
    (h : parse path source = .error d) :
    ∃ l offset text, d.location = some l ∧ Denotes source l.line l.column offset text ∧
      (∃ more, Accepted path (tokensBefore source offset ++ more)) ∧
      (ReportsFault path source d ∨
        ∃ found, FoundAt source offset found ∧
          ∀ tokens, Accepted path tokens →
            ¬ (tokensBefore source offset).map some ++ [found] <+: tokens.map some ++ [none]) := by
  unfold parse at h
  split at h
  · cases h
  next message span hparse =>
    cases h
    cases hsource : TokenStream.ofSource source with
    | mk lexemes ending =>
        rw [hsource] at hparse
        obtain ⟨us, rest, gs, rfl, hrun, hstart, hcause⟩ := exists_of_parse_eq_error hparse
        obtain ⟨⟨before, after, hcut, hsize⟩, htokens⟩ := tokensBefore_offsetAt hsource
        obtain ⟨start, len⟩ := span
        obtain rfl : start = byteSize before := hstart.trans hsize.symm
        obtain ⟨_, _, -, hlaid, -, -⟩ := laid_of_lex hsource
        have hwritten : ∀ t ∈ us.map Lexeme.token, t.Written := by
          intro t ht
          obtain ⟨l, hl, rfl⟩ := List.mem_map.mp ht
          exact hlaid.written (List.mem_append_left rest hl)
        rw [← hsize] at htokens
        refine ⟨_, _, _, rfl, denotes_of_append path hcut len, ?_, ?_⟩
        · rw [htokens]
          exact exists_accepted_of_run hwritten hrun
        rcases hcause with ⟨error, hending, rfl⟩ | ⟨hend, hpeek⟩
        · exact .inl ⟨error, _, by rw [hsource]; exact hending, rfl⟩
        · have hfound := foundAt_offsetAt hsource (by rwa [← hsize])
          rw [← hsize] at hfound
          refine .inr ⟨_, hfound, fun tokens htaken => ?_⟩
          rw [htokens]
          exact not_prefix_of_accepted hrun hpeek htaken

/-- A brace in the second line in the place of a base. -/
theorem parse_rejects_earliest_comma :
    let source := "class A : B,\n\x7b"
    let before : List Token := [.ident "class", .ident "A", .punct ':', .ident "B", .punct ',']
    let location : Location :=
      { path := "a.tpl", line := 2, column := 1, len := 1, lineText := "\x7b" }
    parse "a.tpl" source =
        .error { message := "expected identifier, found `\x7b`", location := some location } ∧
      (∃ more, Accepted "a.tpl" (before ++ more)) ∧
      ∀ tokens, Accepted "a.tpl" tokens → ¬ before ++ [.punct '\x7b'] <+: tokens := by
  intro source before location
  have hparse : parse "a.tpl" source =
      .error { message := "expected identifier, found `\x7b`", location := some location } :=
    eq_error_of_map (f := fun _ => ()) (by decide +kernel)
  obtain ⟨l, offset, text, hl, hdenotes, hmore, hcause⟩ := parse_rejects_earliest hparse
  cases hl
  have hcut : source.toList = "class A : B,\n".toList ++ "\x7b".toList := by decide
  have hplace : Location.ofSpan "a.tpl" source ⟨13, 1⟩ = location := by decide +kernel
  have hdenotes' := denotes_of_append "a.tpl" hcut 1
  rw [show byteSize "class A : B,\n".toList = 13 by decide, hplace] at hdenotes'
  obtain rfl : offset = 13 := hdenotes.unique hdenotes'
  have hbefore : tokensBefore source 13 = before := by decide +kernel
  have hending : (TokenStream.ofSource source).ending = .eof 14 := by decide +kernel
  rw [hbefore] at hmore hcause
  refine ⟨hparse, hmore, fun tokens htokens hstarts => ?_⟩
  rcases hcause with ⟨error, span, hfault, -⟩ | ⟨found, hfound, hnone⟩
  · rw [hending] at hfault
    cases hfault
  cases found with
  | none =>
      rw [FoundAt, hending] at hfound
      cases hfound
  | some t =>
      obtain ⟨l, hl, rfl, hstart⟩ := hfound
      have hbrace : ∀ l ∈ (TokenStream.ofSource source).lexemes,
          l.span.start = 13 → l.token = .punct '\x7b' := by
        decide +kernel
      refine hnone tokens htokens ?_
      rw [hbrace l hl hstart]
      obtain ⟨rest, rfl⟩ := hstarts
      exact ⟨rest.map some ++ [none], by simp⟩

end ViewPress.Source
