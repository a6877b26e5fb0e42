import ViewPress.Proofs.Grammar
import ViewPress.Source.Parser

/-!
# The parser reads what the grammar spells

For each rule of the grammar: lexemes whose tokens begin with a phrase of the rule
are read to the tree of the phrase, up to spans, and what is left are the lexemes
of the tokens behind it. `Yields` is that outcome, with the tokens left and what
is known about the tree; its bind lemma takes a parser apart along its `do` block,
so each proof below names the parts in the order in which they are read.

A reader with one token of look-ahead has to see that a phrase is over. What may
follow is stated where it matters: no `.` after a name and no `else` after a
statement.

The loops run on budgets. A block of statements is read if the budget covers the
lexemes from its first statement to the end of the text, because each round and
each opening brace uses up at least one lexeme; a single statement is entered
with one unit less than the block around it, hence the `+ 1` in its bound.
-/

namespace ViewPress.Source

/-- The outcome is a tree with property `P`, and the tokens of what is left are `rest`. -/
def Yields {α : Type} (outcome : Except Rejection (α × List Lexeme)) (rest : List Token)
    (P : α → Prop) : Prop :=
  ∃ a ts, outcome = .ok (a, ts) ∧ ts.map Lexeme.token = rest ∧ P a

theorem Yields.bind {α β : Type} {outcome : Except Rejection (α × List Lexeme)}
    {f : α × List Lexeme → Except Rejection (β × List Lexeme)} {mid rest : List Token}
    {P : α → Prop} {Q : β → Prop} (h : Yields outcome mid P)
    (hf : ∀ a ts, ts.map Lexeme.token = mid → P a → Yields (f (a, ts)) rest Q) :
    Yields (outcome >>= f) rest Q := by
  obtain ⟨a, ts, rfl, hts, ha⟩ := h
  exact hf a ts hts ha

theorem Yields.ok {α : Type} {a : α} {ts : List Lexeme} {rest : List Token} {P : α → Prop}
    (hts : ts.map Lexeme.token = rest) (ha : P a) : Yields (.ok (a, ts)) rest P :=
  ⟨a, ts, rfl, hts, ha⟩

theorem exists_lexeme {ts : List Lexeme} {t : Token} {rest : List Token}
    (h : ts.map Lexeme.token = t :: rest) :
    ∃ span us, ts = ⟨t, span⟩ :: us ∧ us.map Lexeme.token = rest := by
  obtain ⟨l, us, rfl, rfl, hus⟩ := List.map_eq_cons_iff.mp h
  exact ⟨l.span, us, rfl, hus⟩

/-! ## Single tokens -/

theorem expectPunct_yields {c : Char} {ts : List Lexeme} {rest : List Token}
    (h : ts.map Lexeme.token = .punct c :: rest) :
    Yields (expectPunct c ts) rest fun _ => True := by
  obtain ⟨span, us, rfl, hus⟩ := exists_lexeme h
  rw [expectPunct, if_pos rfl]
  exact Yields.ok hus trivial

theorem expectIdent_yields {x : String} {ts : List Lexeme} {rest : List Token}
    (h : ts.map Lexeme.token = .ident x :: rest) :
    Yields (expectIdent ts) rest fun p => p.1 = x := by
  obtain ⟨span, us, rfl, hus⟩ := exists_lexeme h
  rw [expectIdent]
  exact Yields.ok hus rfl

theorem expectString_yields {text : String} {ts : List Lexeme} {rest : List Token}
    (h : ts.map Lexeme.token = .str text :: rest) :
    Yields (expectString ts) rest fun t => t = text := by
  obtain ⟨span, us, rfl, hus⟩ := exists_lexeme h
  rw [expectString]
  exact Yields.ok hus rfl

theorem expectIn_yields {ts : List Lexeme} {rest : List Token}
    (h : ts.map Lexeme.token = .ident "in" :: rest) :
    Yields (expectIn ts) rest fun _ => True := by
  obtain ⟨span, us, rfl, hus⟩ := exists_lexeme h
  rw [expectIn, if_pos rfl]
  exact Yields.ok hus trivial

/-! ## Names -/

/-- A name may end here: no point follows. -/
def NameEnds (rest : List Token) : Prop :=
  ∀ t ∈ rest.head?, t ≠ .punct '.'

theorem parseSegments_of_nameEnds {ts : List Lexeme} {rest : List Token} (stop : Nat)
    (h : ts.map Lexeme.token = rest) (hrest : NameEnds rest) :
    parseSegments stop ts = .ok (([], stop), ts) := by
  cases ts with
  | nil => rw [parseSegments] <;> simp
  | cons l ts =>
      have hl : l.token ≠ .punct '.' := hrest l.token (by rw [← h]; rfl)
      obtain ⟨token, span⟩ := l
      rw [parseSegments]
      · intro _ name _ _ hlex
        cases hlex
        exact absurd rfl hl
      · intro _ _ hlex
        cases hlex
        exact absurd rfl hl

theorem parseSegments_yields {ns rest : List Token} {segments : List String}
    (h : Grammar.Name ns segments) (hrest : NameEnds rest) :
    ∃ x toks xs, ns = .ident x :: toks ∧ segments = x :: xs ∧
      ∀ (ts : List Lexeme) (stop : Nat), ts.map Lexeme.token = toks ++ rest →
        Yields (parseSegments stop ts) rest fun p => p.1 = xs := by
  induction h with
  | ident x =>
      refine ⟨x, [], [], rfl, rfl, fun ts stop hts => ?_⟩
      rw [parseSegments_of_nameEnds stop hts hrest]
      exact Yields.ok hts rfl
  | dot x _ ih =>
      obtain ⟨y, toks, ys, rfl, rfl, hparse⟩ := ih
      refine ⟨x, _, _, rfl, rfl, fun ts stop hts => ?_⟩
      obtain ⟨_, us, rfl, hus⟩ := exists_lexeme hts
      obtain ⟨span, vs, rfl, hvs⟩ := exists_lexeme hus
      rw [parseSegments]
      refine Yields.bind (hparse vs span.stop hvs) fun p ws hws hp => ?_
      exact Yields.ok hws (congrArg (y :: ·) hp)

theorem parseDotted_yields {ns rest : List Token} {segments : List String}
    (h : Grammar.Name ns segments) (hrest : NameEnds rest) {ts : List Lexeme}
    (hts : ts.map Lexeme.token = ns ++ rest) :
    Yields (parseDotted ts) rest fun p => p.1 = segments := by
  obtain ⟨x, toks, xs, rfl, rfl, hparse⟩ := parseSegments_yields h hrest
  refine Yields.bind (expectIdent_yields hts) fun p us hus hp => ?_
  refine Yields.bind (hparse us p.2.stop hus) fun q vs hvs hq => ?_
  exact Yields.ok hvs (by rw [hp, hq])

theorem parsePath_yields {ns rest : List Token} {segments : List String}
    (h : Grammar.Name ns segments) (hrest : NameEnds rest) {ts : List Lexeme}
    (hts : ts.map Lexeme.token = ns ++ rest) :
    Yields (parsePath ts) rest fun p => p.erase = { segments } := by
  refine Yields.bind (parseDotted_yields h hrest hts) fun p us hus hp => ?_
  exact Yields.ok hus (congrArg (fun segments => ({ segments } : ValuePath)) hp)

theorem Grammar.Name.head {ns : List Token} {segments : List String}
    (h : Grammar.Name ns segments) : ∃ x us, ns = .ident x :: us := by
  cases h with
  | ident x => exact ⟨x, [], rfl⟩
  | dot x _ => exact ⟨x, _, rfl⟩

theorem nameEnds_cons {t : Token} {rest : List Token} (h : t ≠ .punct '.') :
    NameEnds (t :: rest) := by
  intro u hu
  obtain rfl : t = u := by simpa using hu
  exact h

/-! ## Statements -/

/-- A statement may end here: no `else` follows. -/
def StatementEnds (rest : List Token) : Prop :=
  ∀ t ∈ rest.head?, t ≠ .ident "else"

theorem statementEnds_cons {t : Token} {rest : List Token} (h : t ≠ .ident "else") :
    StatementEnds (t :: rest) := by
  intro u hu
  obtain rfl : t = u := by simpa using hu
  exact h

/-- Each statement starts with its keyword, so no statement looks like the `else` part of
the one before it, nor like the end of its block. -/
theorem Grammar.Statement.head {ts : List Token} {s : Source.Statement}
    (h : Grammar.Statement ts s) :
    ∃ word us, ts = .ident word :: us ∧ word ∈ ["write", "emit", "if", "for"] := by
  cases h with
  | write text => exact ⟨_, _, rfl, by decide⟩
  | emit path => exact ⟨_, _, rfl, by decide⟩
  | branch bang cond block => exact ⟨_, _, rfl, by decide⟩
  | branchElse bang cond block other => exact ⟨_, _, rfl, by decide⟩
  | forEach binding source block => exact ⟨_, _, rfl, by decide⟩

theorem Grammar.Statements.statementEnds {ts rest : List Token} {ss : List Source.Statement}
    (h : Grammar.Statements ts ss) : StatementEnds (ts ++ .punct '}' :: rest) := by
  cases h with
  | nil => exact statementEnds_cons (by decide)
  | cons head tail =>
      obtain ⟨word, us, rfl, hword⟩ := head.head
      refine statementEnds_cons fun h => ?_
      cases h
      exact absurd hword (by decide)

theorem Grammar.Block.nameEnds {ts rest : List Token} {ss : List Source.Statement}
    (h : Grammar.Block ts ss) : NameEnds (ts ++ rest) := by
  cases h with
  | braces inner => exact nameEnds_cons (by decide)

/-- The mark in front of a condition is taken off, and nothing else is. -/
theorem takeBang_eq {bs ns rest : List Token} {negate : Bool} {segments : List String}
    (hbang : Grammar.Bang bs negate) (hname : Grammar.Name ns segments) {ts : List Lexeme}
    (hts : ts.map Lexeme.token = bs ++ (ns ++ rest)) :
    ∃ us : List Lexeme, us.map Lexeme.token = ns ++ rest ∧ takeBang ts = (negate, us) := by
  cases hbang with
  | absent =>
      obtain ⟨x, toks, rfl⟩ := hname.head
      obtain ⟨span, us, rfl, hus⟩ := exists_lexeme hts
      exact ⟨_, hts, rfl⟩
  | present =>
      obtain ⟨span, us, rfl, hus⟩ := exists_lexeme hts
      exact ⟨us, hus, rfl⟩

theorem Grammar.Statement.two_le_length {toks : List Token} {s : Source.Statement}
    (h : Grammar.Statement toks s) : 2 ≤ toks.length := by
  cases h with
  | write text => simp
  | emit path => simp
  | branch bang cond block =>
      cases block
      simp only [List.length_append, List.length_cons]
      omega
  | branchElse bang cond block other =>
      simp only [List.length_append, List.length_cons]
      omega
  | forEach binding source block => simp

mutual

theorem Grammar.Statement.yields {toks rest : List Token} {s : Source.Statement}
    (h : Grammar.Statement toks s) (hrest : StatementEnds rest) {n : Nat} {ts : List Lexeme}
    (hts : ts.map Lexeme.token = toks ++ rest) (hn : (toks ++ rest).length ≤ n + 1) :
    Yields (parseStatement n ts) rest fun s' => s'.erase = s := by
  obtain ⟨n, rfl⟩ : ∃ m, n = m + 1 := by
    have hlen := h.two_le_length
    rw [List.length_append] at hn
    exact ⟨n - 1, by omega⟩
  match h with
  | .write text =>
      obtain ⟨span, us, rfl, hus⟩ := exists_lexeme hts
      rw [parseStatement, if_pos rfl]
      refine Yields.bind (expectString_yields hus) fun t vs hvs ht => ?_
      refine Yields.bind (expectPunct_yields hvs) fun _ ws hws _ => ?_
      exact Yields.ok hws (by rw [ht, Source.Statement.erase])
  | .emit path =>
      rw [List.append_assoc] at hts
      obtain ⟨span, us, rfl, hus⟩ := exists_lexeme hts
      rw [parseStatement, if_neg (by decide), if_pos rfl]
      refine Yields.bind (parsePath_yields path (nameEnds_cons (by decide)) hus)
        fun p vs hvs hp => ?_
      refine Yields.bind (expectPunct_yields hvs) fun _ ws hws _ => ?_
      exact Yields.ok hws (by rw [Source.Statement.erase, hp])
  | .branch bang cond block =>
      rw [List.append_assoc, List.append_assoc] at hts
      obtain ⟨span, us, rfl, hus⟩ := exists_lexeme hts
      obtain ⟨vs, hvs, hbang⟩ := takeBang_eq bang cond hus
      rw [parseStatement, if_neg (by decide), if_neg (by decide), if_pos rfl, hbang]
      dsimp only
      refine Yields.bind (parsePath_yields cond block.nameEnds hvs) fun p ws hws hp => ?_
      refine block.yields hws ?_ fun ss' xs hxs hss => ?_
      · simp only [List.length_append, List.length_cons] at hn ⊢
        omega
      split
      · next hxs' =>
          dsimp only at hxs'
          rw [hxs'] at hxs
          exact absurd rfl (hrest (.ident "else") (by rw [← hxs]; rfl))
      · exact Yields.ok hxs (by rw [Source.Statement.erase, hp, hss])
  | .branchElse bang cond block other =>
      rw [List.append_assoc, List.append_assoc, List.append_assoc] at hts
      obtain ⟨span, us, rfl, hus⟩ := exists_lexeme hts
      obtain ⟨vs, hvs, hbang⟩ := takeBang_eq bang cond hus
      rw [parseStatement, if_neg (by decide), if_neg (by decide), if_pos rfl, hbang]
      dsimp only
      refine Yields.bind (parsePath_yields cond block.nameEnds hvs) fun p ws hws hp => ?_
      refine block.yields hws ?_ fun yes xs hxs hyes => ?_
      · simp only [List.length_append, List.length_cons] at hn ⊢
        omega
      obtain ⟨span', ys, rfl, hys⟩ := exists_lexeme hxs
      refine other.yields hys ?_ fun no zs hzs hno => ?_
      · simp only [List.length_append, List.length_cons] at hn ⊢
        omega
      exact Yields.ok hzs (by rw [Source.Statement.erase, hp, hyes, hno])
  | .forEach binding source block =>
      rw [List.append_assoc] at hts
      obtain ⟨span, us, rfl, hus⟩ := exists_lexeme hts
      rw [parseStatement, if_neg (by decide), if_neg (by decide), if_neg (by decide), if_pos rfl]
      refine Yields.bind (expectIdent_yields hus) fun b vs hvs hb => ?_
      refine Yields.bind (expectIn_yields hvs) fun _ ws hws _ => ?_
      refine Yields.bind (parsePath_yields source block.nameEnds hws) fun p xs hxs hp => ?_
      refine block.yields hxs ?_ fun body ys hys hbody => ?_
      · simp only [List.length_append, List.length_cons] at hn ⊢
        omega
      exact Yields.ok hys (by rw [Source.Statement.erase, hp, hbody, hb])

theorem Grammar.Block.yields {β : Type} {toks rest rest' : List Token}
    {ss : List Source.Statement} (h : Grammar.Block toks ss) {n : Nat} {ts : List Lexeme}
    (hts : ts.map Lexeme.token = toks ++ rest) (hn : (toks ++ rest).length ≤ n + 1)
    {f : List Source.Statement × List Lexeme → Except Rejection (β × List Lexeme)}
    {Q : β → Prop}
    (hf : ∀ ss' us, us.map Lexeme.token = rest → eraseStatements ss' = ss →
      Yields (f (ss', us)) rest' Q) :
    Yields (expectPunct '{' ts >>= fun p => parseStatements n p.2 >>= f) rest' Q := by
  match h with
  | .braces inner =>
      rw [List.append_assoc] at hts hn
      refine Yields.bind (expectPunct_yields hts) fun _ us hus _ => ?_
      exact Yields.bind (inner.yields hus (Nat.le_of_succ_le_succ hn)) hf

theorem Grammar.Statements.yields {toks rest : List Token} {ss : List Source.Statement}
    (h : Grammar.Statements toks ss) {n : Nat} {ts : List Lexeme}
    (hts : ts.map Lexeme.token = toks ++ .punct '}' :: rest)
    (hn : (toks ++ .punct '}' :: rest).length ≤ n) :
    Yields (parseStatements n ts) rest fun ss' => eraseStatements ss' = ss := by
  obtain ⟨n, rfl⟩ : ∃ m, n = m + 1 := by
    rw [List.length_append, List.length_cons] at hn
    exact ⟨n - 1, by omega⟩
  match h with
  | .nil =>
      obtain ⟨span, us, rfl, hus⟩ := exists_lexeme hts
      rw [parseStatements]
      exact Yields.ok hus (by rw [eraseStatements])
  | .cons head tail =>
      rw [List.append_assoc] at hts hn
      obtain ⟨word, us, hword, -⟩ := head.head
      have hlen := congrArg List.length hword
      have hstep : parseStatements (n + 1) ts =
          parseStatement n ts >>= fun p => parseStatements n p.2 >>= fun q =>
            pure (p.1 :: q.1, q.2) := by
        obtain ⟨span, vs, rfl, -⟩ := exists_lexeme (hts.trans (congrArg (· ++ _) hword))
        rw [parseStatements]
        nofun
      rw [hstep]
      refine Yields.bind (head.yields tail.statementEnds hts hn) fun s vs hvs hs => ?_
      refine Yields.bind (tail.yields hvs ?_) fun ss ws hws hss => ?_
      · simp only [List.length_append, List.length_cons] at hn hlen ⊢
        omega
      exact Yields.ok hws (by rw [eraseStatements, hs, hss])

end

/-! ## Attributes -/

theorem Grammar.Args.yields {toks rest : List Token} {texts : List String}
    (h : Grammar.Args toks texts) : ∀ {ts : List Lexeme},
      ts.map Lexeme.token = toks ++ .punct ')' :: rest →
        Yields (parseArgs ts) rest fun texts' => texts' = texts := by
  induction h with
  | nil =>
      intro ts hts
      obtain ⟨span, us, rfl, hus⟩ := exists_lexeme hts
      rw [parseArgs]
      exact Yields.ok hus rfl
  | one text =>
      intro ts hts
      obtain ⟨span, us, rfl, hus⟩ := exists_lexeme hts
      have hclose := expectPunct_yields hus
      obtain ⟨span', vs, rfl, hvs⟩ := exists_lexeme hus
      rw [parseArgs]
      · exact Yields.bind hclose fun _ ws hws _ => Yields.ok hws rfl
      · nofun
  | cons text _ ih =>
      intro ts hts
      obtain ⟨span, us, rfl, hus⟩ := exists_lexeme hts
      obtain ⟨span', vs, rfl, hvs⟩ := exists_lexeme hus
      rw [parseArgs]
      refine Yields.bind (ih hvs) fun texts' ws hws htexts => ?_
      exact Yields.ok hws (by rw [htexts])

theorem Grammar.Parens.nameEnds {ps rest : List Token} {args : List String}
    (h : Grammar.Parens ps args) : NameEnds (ps ++ .punct ']' :: rest) := by
  cases h with
  | absent => exact nameEnds_cons (by decide)
  | present _ => exact nameEnds_cons (by decide)

theorem Grammar.Parens.yields {ps rest : List Token} {args : List String}
    (h : Grammar.Parens ps args) {ts : List Lexeme}
    (hts : ts.map Lexeme.token = ps ++ .punct ']' :: rest) :
    Yields (parseParens ts) (.punct ']' :: rest) fun args' => args' = args := by
  cases h with
  | absent =>
      have hnil : parseParens ts = .ok ([], ts) := by
        obtain ⟨span, us, rfl, -⟩ := exists_lexeme hts
        rfl
      rw [hnil]
      exact Yields.ok hts rfl
  | present inner =>
      rw [List.append_assoc] at hts
      obtain ⟨span, us, rfl, hus⟩ := exists_lexeme hts
      exact inner.yields hus

/-- An attribute is read from after its `#`. -/
theorem Grammar.Attribute.yields {toks rest : List Token} {a : Source.Attribute}
    (h : Grammar.Attribute toks a) :
    ∃ us, toks = .punct '#' :: us ∧ ∀ (start : Nat) (ts : List Lexeme),
      ts.map Lexeme.token = us ++ rest →
        Yields (parseAttribute start ts) rest fun a' => a'.erase = a := by
  cases h with
  | @brackets ns ps segments args name parens =>
      refine ⟨.punct '[' :: (ns ++ (ps ++ [.punct ']'])), by simp, fun start ts hts => ?_⟩
      rw [List.cons_append, List.append_assoc, List.append_assoc] at hts
      refine Yields.bind (expectPunct_yields hts) fun _ us hus _ => ?_
      refine Yields.bind (parseDotted_yields name parens.nameEnds hus) fun p vs hvs hp => ?_
      refine Yields.bind (parens.yields hvs) fun args' ws hws hargs => ?_
      refine Yields.bind (expectPunct_yields hws) fun close xs hxs _ => ?_
      exact Yields.ok hxs (by rw [Source.Attribute.erase, hp, hargs])

theorem Grammar.Attributes.yields {toks rest : List Token} {as : List Source.Attribute}
    (h : Grammar.Attributes toks as) (hrest : ∀ t ∈ rest.head?, t ≠ .punct '#') :
    ∀ {n : Nat} {ts : List Lexeme}, ts.map Lexeme.token = toks ++ rest →
      (toks ++ rest).length ≤ n →
        Yields (parseAttributes n ts) rest fun as' => as'.map Attribute.erase = as := by
  induction h with
  | nil =>
      intro n ts hts _
      have hnil : parseAttributes n ts = .ok ([], ts) := by
        cases ts with
        | nil => cases n <;> rfl
        | cons l ts =>
            have hl : l.token ≠ .punct '#' := by
              refine hrest l.token ?_
              rw [← List.nil_append rest, ← hts]
              rfl
            obtain ⟨token, span⟩ := l
            rw [parseAttributes]
            intro _ _ _ _ hlex
            cases hlex
            exact absurd rfl hl
      rw [hnil]
      exact Yields.ok hts rfl
  | cons head _ ih =>
      intro n ts hts hn
      rw [List.append_assoc] at hts hn
      obtain ⟨us, rfl, hparse⟩ := head.yields
      obtain ⟨n, rfl⟩ : ∃ m, n = m + 1 :=
        ⟨n - 1, by simp only [List.length_append, List.length_cons] at hn; omega⟩
      obtain ⟨span, vs, rfl, hvs⟩ := exists_lexeme hts
      rw [parseAttributes]
      refine Yields.bind (hparse span.start vs hvs) fun a ws hws ha => ?_
      refine Yields.bind
        (ih hws (by simp only [List.length_append, List.length_cons] at hn ⊢; omega))
        fun as' xs hxs has => ?_
      exact Yields.ok hxs (by rw [List.map_cons, ha, has])

/-! ## Declarations -/

theorem Grammar.Bases.yields {toks rest : List Token} {bases : List BaseRef}
    (h : Grammar.Bases toks bases) : ∀ {n : Nat} {ts : List Lexeme},
      ts.map Lexeme.token = toks ++ .punct '{' :: rest →
      (toks ++ .punct '{' :: rest).length ≤ n →
        Yields (parseBases n ts) (.punct '{' :: rest) fun bs => bs.map BaseRef.erase = bases := by
  induction h with
  | one name =>
      intro n ts hts hn
      obtain ⟨n, rfl⟩ : ∃ m, n = m + 1 :=
        ⟨n - 1, by simp only [List.length_append, List.length_cons] at hn; omega⟩
      rw [parseBases]
      refine Yields.bind (parseDotted_yields name (nameEnds_cons (by decide)) hts)
        fun p us hus hp => ?_
      obtain ⟨span, vs, rfl, -⟩ := exists_lexeme hus
      exact Yields.ok hus (by rw [List.map_singleton, BaseRef.erase, hp])
  | cons name _ ih =>
      intro n ts hts hn
      rw [List.append_assoc] at hts hn
      obtain ⟨n, rfl⟩ : ∃ m, n = m + 1 :=
        ⟨n - 1, by simp only [List.length_append, List.length_cons] at hn; omega⟩
      rw [parseBases]
      refine Yields.bind (parseDotted_yields name (nameEnds_cons (by decide)) hts)
        fun p us hus hp => ?_
      obtain ⟨span, vs, rfl, hvs⟩ := exists_lexeme hus
      refine Yields.bind
        (ih hvs (by simp only [List.length_append, List.length_cons] at hn ⊢; omega))
        fun bs ws hws hbs => ?_
      exact Yields.ok hws (by rw [List.map_cons, hbs, BaseRef.erase, hp])

theorem Grammar.Heritage.nameEnds {hs rest : List Token} {bases : List BaseRef}
    (h : Grammar.Heritage hs bases) : NameEnds (hs ++ .punct '{' :: rest) := by
  cases h with
  | absent => exact nameEnds_cons (by decide)
  | present _ => exact nameEnds_cons (by decide)

theorem Grammar.Heritage.yields {hs rest : List Token} {bases : List BaseRef}
    (h : Grammar.Heritage hs bases) {n : Nat} {ts : List Lexeme}
    (hts : ts.map Lexeme.token = hs ++ .punct '{' :: rest)
    (hn : (hs ++ .punct '{' :: rest).length ≤ n) :
    Yields (parseHeritage n ts) (.punct '{' :: rest) fun bs => bs.map BaseRef.erase = bases := by
  cases h with
  | absent =>
      have hnil : parseHeritage n ts = .ok ([], ts) := by
        obtain ⟨span, us, rfl, -⟩ := exists_lexeme hts
        rfl
      rw [hnil]
      exact Yields.ok hts rfl
  | present inner =>
      obtain ⟨span, us, rfl, hus⟩ := exists_lexeme hts
      exact inner.yields hus (Nat.le_of_succ_le hn)

theorem Grammar.Render.yields {rs rest : List Token} {render : Option (List Source.Statement)}
    (h : Grammar.Render rs render) {n : Nat} {ts : List Lexeme}
    (hts : ts.map Lexeme.token = rs ++ .punct '}' :: rest)
    (hn : (rs ++ .punct '}' :: rest).length ≤ n) :
    Yields (parseMembers n ts) rest fun r => r.map eraseStatements = render := by
  cases h with
  | absent =>
      obtain ⟨span, us, rfl, hus⟩ := exists_lexeme hts
      rw [parseMembers]
      exact Yields.ok hus rfl
  | present block =>
      obtain ⟨span, us, rfl, hus⟩ := exists_lexeme hts
      rw [parseMembers]
      refine block.yields hus (Nat.le_succ_of_le (Nat.le_of_succ_le hn)) fun ss vs hvs hss => ?_
      obtain ⟨span', ws, rfl, hws⟩ := exists_lexeme hvs
      exact Yields.ok hws (by rw [Option.map_some, hss])

theorem Grammar.Kind.yields {k : Token} {kind : DeclarationKind} (h : Grammar.Kind k kind)
    {rest : List Token} {ts : List Lexeme} (hts : ts.map Lexeme.token = k :: rest) :
    Yields (parseKind ts) rest fun kind' => kind' = kind := by
  obtain ⟨span, us, rfl, hus⟩ := exists_lexeme hts
  cases h with
  | classType => exact Yields.ok hus rfl
  | interfaceType => exact Yields.ok hus rfl

theorem Grammar.Declaration.yields {toks rest : List Token} {d : Source.Declaration}
    (h : Grammar.Declaration toks d) {n : Nat} {ts : List Lexeme}
    (hts : ts.map Lexeme.token = toks ++ rest) (hn : (toks ++ rest).length ≤ n) :
    Yields (parseDeclaration n ts) rest fun d' => d'.erase = d := by
  cases h with
  | @mk as ns hs rs k attributes kind segments bases render attrs word name heritage member =>
      have hspell : as ++ k :: ns ++ hs ++ .punct '{' :: rs ++ [.punct '}'] ++ rest
          = as ++ k :: (ns ++ (hs ++ .punct '{' :: (rs ++ .punct '}' :: rest))) := by simp
      rw [hspell] at hts hn
      simp only [List.length_append, List.length_cons] at hn
      have hkind : ∀ t ∈ (k :: (ns ++ (hs ++ .punct '{' :: (rs ++ .punct '}' :: rest)))).head?,
          t ≠ .punct '#' := by
        intro t ht
        obtain rfl : k = t := by simpa using ht
        cases word <;> nofun
      refine Yields.bind
        (attrs.yields hkind hts (by simp only [List.length_append, List.length_cons]; omega))
        fun as' us hus has => ?_
      refine Yields.bind (word.yields hus) fun kind' vs hvs hkind' => ?_
      refine Yields.bind (parseDotted_yields name heritage.nameEnds hvs) fun p ws hws hp => ?_
      refine Yields.bind
        (heritage.yields hws (by simp only [List.length_append, List.length_cons]; omega))
        fun bs xs hxs hbs => ?_
      refine Yields.bind (expectPunct_yields hxs) fun _ ys hys _ => ?_
      refine Yields.bind
        (member.yields hys (by simp only [List.length_append, List.length_cons]; omega))
        fun r zs hzs hr => ?_
      exact Yields.ok hzs (by rw [Source.Declaration.erase, has, hkind', hp, hbs, hr])

theorem Grammar.Declaration.length_pos {toks : List Token} {d : Source.Declaration}
    (h : Grammar.Declaration toks d) : 0 < toks.length := by
  cases h with
  | mk attrs word name heritage member =>
      simp only [List.length_append, List.length_cons]
      omega

theorem Grammar.Types.parseTypes_eq {toks : List Token} {ds : List Source.Declaration}
    (h : Grammar.Types toks ds) : ∀ {n : Nat} {ts : List Lexeme},
      ts.map Lexeme.token = toks → toks.length < n →
        ∃ ds', parseTypes n ts = .ok ds' ∧ ds'.map Declaration.erase = ds := by
  induction h with
  | nil =>
      intro n ts hts _
      obtain rfl : ts = [] := List.map_eq_nil_iff.mp hts
      exact ⟨[], by rw [parseTypes], rfl⟩
  | cons head _ ih =>
      intro n ts hts hn
      have hpos := head.length_pos
      obtain ⟨n, rfl⟩ : ∃ m, n = m + 1 := ⟨n - 1, by omega⟩
      rw [List.length_append] at hn
      obtain ⟨d, us, hd, hus, herase⟩ :=
        head.yields (n := n) hts (by rw [List.length_append]; omega)
      obtain ⟨ds, hds, heraseds⟩ := ih (n := n) hus (by omega)
      refine ⟨d :: ds, ?_, by rw [List.map_cons, herase, heraseds]⟩
      rw [parseTypes]
      · rw [hd]
        dsimp only [bind, Except.bind]
        rw [hds]
        rfl
      · intro hnil
        rw [hnil] at hts
        have := congrArg List.length hts
        simp only [List.map_nil, List.length_nil, List.length_append] at this
        omega

/-- Lexemes whose tokens spell declarations are parsed to these declarations. -/
theorem Grammar.Types.parseLexemes_eq {toks : List Token} {ds : List Source.Declaration}
    (h : Grammar.Types toks ds) {ts : List Lexeme} (hts : ts.map Lexeme.token = toks) :
    ∃ ds', parseLexemes ts = .ok ds' ∧ ds'.map Declaration.erase = ds :=
  h.parseTypes_eq hts (by rw [← hts, List.length_map]; exact Nat.lt_succ_self _)

end ViewPress.Source
