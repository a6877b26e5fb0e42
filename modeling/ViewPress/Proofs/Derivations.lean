import ViewPress.Proofs.Parsing
import ViewPress.Source.Printer

/-!
# Derivations

A derivation records how tokens come from the rules of the grammar: which
alternative was taken at every choice, and how often at every repetition. Its
tokens and its tree are read off it. The tree says less than the derivation does,
because a comma after the last argument and the points of a name leave no trace in
it.

No two derivations have the same tokens. The proof goes by the way in which a
phrase is told from what follows it: `Delimits` says that the tokens of a phrase
can be cut off in front of anything that may follow the phrase, and that whoever
cuts there finds the same phrase. A repetition needs one more thing, that its
items cannot be mistaken for what follows the last of them; `delimits_flatMap` says
that once for all lists of the grammar.
-/

namespace ViewPress.Source.Derivation

/-! ## Derivations, their tokens and their trees -/

/-- `name := identifier ("." identifier)*` -/
structure Name where
  first : String
  more : List String

def Name.segments (n : Name) : List String :=
  n.first :: n.more

/-- `"." identifier` -/
def dot (x : String) : List Token :=
  [.punct '.', .ident x]

def Name.tokens (n : Name) : List Token :=
  .ident n.first :: n.more.flatMap dot

/-- `"!"?` -/
def bang : Bool → List Token
  | false => []
  | true => [.punct '!']

inductive Statement where
  | write (text : String)
  | emit (path : Name)
  | branch (negate : Bool) (cond : Name) (yes : List Statement)
  | branchElse (negate : Bool) (cond : Name) (yes no : List Statement)
  | forEach (binding : String) (source : Name) (body : List Statement)

/-- `"{" ... "}"` -/
def braces (inner : List Token) : List Token :=
  .punct '{' :: inner ++ [.punct '}']

mutual

/-- `statement := "write" string ";" | "emit" name ";" | "if" "!"? name block ("else" block)?
| "for" identifier "in" name block` -/
def Statement.tokens : Statement → List Token
  | .write text => [.ident "write", .str text, .punct ';']
  | .emit path => .ident "emit" :: path.tokens ++ [.punct ';']
  | .branch negate cond yes =>
      .ident "if" :: bang negate ++ cond.tokens ++ braces (statementsTokens yes)
  | .branchElse negate cond yes no =>
      .ident "if" :: bang negate ++ cond.tokens ++ braces (statementsTokens yes)
        ++ .ident "else" :: braces (statementsTokens no)
  | .forEach binding source body =>
      .ident "for" :: .ident binding :: .ident "in" :: source.tokens
        ++ braces (statementsTokens body)

/-- `statement*` -/
def statementsTokens : List Statement → List Token
  | [] => []
  | s :: rest => s.tokens ++ statementsTokens rest

end

mutual

def Statement.tree : Statement → Source.Statement
  | .write text => .write text
  | .emit path => .emit { segments := path.segments }
  | .branch negate cond yes => .branch { segments := cond.segments } negate (statementsTree yes) none
  | .branchElse negate cond yes no =>
      .branch { segments := cond.segments } negate (statementsTree yes) (some (statementsTree no))
  | .forEach binding source body =>
      .forEach binding { segments := source.segments } (statementsTree body)

def statementsTree : List Statement → List Source.Statement
  | [] => []
  | s :: rest => s.tree :: statementsTree rest

end

/-- `(string ("," string)* ","?)?` -/
inductive Args where
  | nil
  | one (text : String)
  | cons (text : String) (tail : Args)

def Args.tokens : Args → List Token
  | .nil => []
  | .one text => [.str text]
  | .cons text tail => .str text :: .punct ',' :: tail.tokens

def Args.texts : Args → List String
  | .nil => []
  | .one text => [text]
  | .cons text tail => text :: tail.texts

structure Attribute where
  name : Name
  parens : Option Args

/-- `("(" args ")")?` -/
def parensTokens : Option Args → List Token
  | none => []
  | some args => .punct '(' :: args.tokens ++ [.punct ')']

/-- `attribute := "#" "[" name parens "]"` -/
def Attribute.tokens (a : Attribute) : List Token :=
  .punct '#' :: .punct '[' :: a.name.tokens ++ parensTokens a.parens ++ [.punct ']']

def Attribute.tree (a : Attribute) : Source.Attribute where
  name := Text.joinDots a.name.segments
  args := (a.parens.map Args.texts).getD []

/-- `"," name` -/
def furtherBase (n : Name) : List Token :=
  .punct ',' :: n.tokens

/-- `(":" name ("," name)*)?` -/
def heritageTokens : List Name → List Token
  | [] => []
  | base :: bases => .punct ':' :: base.tokens ++ bases.flatMap furtherBase

/-- `("render" block)?` -/
def renderTokens : Option (List Statement) → List Token
  | none => []
  | some block => .ident "render" :: braces (statementsTokens block)

structure Declaration where
  attributes : List Attribute
  kind : DeclarationKind
  name : Name
  bases : List Name
  render : Option (List Statement)

/-- `declaration := attribute* ("class" | "interface") name heritage "{" render "}"` -/
def Declaration.tokens (d : Declaration) : List Token :=
  d.attributes.flatMap Attribute.tokens ++ .ident d.kind.keyword :: d.name.tokens
    ++ heritageTokens d.bases ++ .punct '{' :: renderTokens d.render ++ [.punct '}']

def Declaration.tree (d : Declaration) : Source.Declaration where
  attributes := d.attributes.map Attribute.tree
  kind := d.kind
  name := Text.joinDots d.name.segments
  bases := d.bases.map fun n => { name := Text.joinDots n.segments }
  render := d.render.map statementsTree

/-- `types := declaration*` -/
def typesTokens (ds : List Declaration) : List Token :=
  ds.flatMap Declaration.tokens

/-! ## What derivations spell -/

theorem Name.spells (n : Name) : Grammar.Name n.tokens n.segments := by
  obtain ⟨x, xs⟩ := n
  induction xs generalizing x with
  | nil => exact .ident x
  | cons y ys ih => exact .dot x (ih y)

theorem spells_bang (negate : Bool) : Grammar.Bang (bang negate) negate := by
  cases negate with
  | false => exact .absent
  | true => exact .present

mutual

theorem Statement.spells (s : Statement) : Grammar.Statement s.tokens s.tree := by
  match s with
  | .write text =>
      rw [Statement.tokens, Statement.tree]
      exact .write text
  | .emit path =>
      rw [Statement.tokens, Statement.tree]
      exact .emit path.spells
  | .branch negate cond yes =>
      rw [Statement.tokens, Statement.tree]
      exact .branch (spells_bang negate) cond.spells (.braces (spells_statements yes))
  | .branchElse negate cond yes no =>
      rw [Statement.tokens, Statement.tree]
      exact .branchElse (spells_bang negate) cond.spells (.braces (spells_statements yes))
        (.braces (spells_statements no))
  | .forEach binding source body =>
      rw [Statement.tokens, Statement.tree]
      exact .forEach binding source.spells (.braces (spells_statements body))

theorem spells_statements (ss : List Statement) :
    Grammar.Statements (statementsTokens ss) (statementsTree ss) := by
  match ss with
  | [] =>
      rw [statementsTokens, statementsTree]
      exact .nil
  | s :: rest =>
      rw [statementsTokens, statementsTree]
      exact .cons s.spells (spells_statements rest)

end

theorem Args.spells (args : Args) : Grammar.Args args.tokens args.texts := by
  induction args with
  | nil => exact .nil
  | one text => exact .one text
  | cons text tail ih => exact .cons text ih

theorem Attribute.spells (a : Attribute) : Grammar.Attribute a.tokens a.tree := by
  obtain ⟨name, parens⟩ := a
  cases parens with
  | none => exact .brackets name.spells .absent
  | some args => exact .brackets name.spells (.present args.spells)

theorem spells_attributes (as : List Attribute) :
    Grammar.Attributes (as.flatMap Attribute.tokens) (as.map Attribute.tree) := by
  induction as with
  | nil => exact .nil
  | cons a as ih => exact .cons a.spells ih

theorem spells_bases (base : Name) (bases : List Name) :
    Grammar.Bases (base.tokens ++ bases.flatMap furtherBase)
      ((base :: bases).map fun n => { name := Text.joinDots n.segments }) := by
  induction bases generalizing base with
  | nil =>
      rw [List.flatMap_nil, List.append_nil]
      exact .one base.spells
  | cons next bases ih => exact .cons base.spells (ih next)

theorem spells_heritage (bases : List Name) :
    Grammar.Heritage (heritageTokens bases)
      (bases.map fun n => { name := Text.joinDots n.segments }) := by
  cases bases with
  | nil => exact .absent
  | cons base bases => exact .present (spells_bases base bases)

theorem spells_render (render : Option (List Statement)) :
    Grammar.Render (renderTokens render) (render.map statementsTree) := by
  cases render with
  | none => exact .absent
  | some block => exact .present (.braces (spells_statements block))

theorem Declaration.spells (d : Declaration) : Grammar.Declaration d.tokens d.tree := by
  refine .mk (spells_attributes d.attributes) ?_ d.name.spells (spells_heritage d.bases)
    (spells_render d.render)
  cases d.kind with
  | classType => exact .classType
  | interfaceType => exact .interfaceType

/-- The tokens of a derivation spell its tree. -/
theorem spells_types (ds : List Declaration) :
    Grammar.Types (typesTokens ds) (ds.map Declaration.tree) := by
  induction ds with
  | nil => exact .nil
  | cons d ds ih => exact .cons d.spells ih

/-! ## Telling a phrase from what follows it -/

/-- Where something that may follow the phrase `a` follows, no other phrase has these
tokens, and `a` ends in one place only. -/
def Delimits {α : Type} (tokens : α → List Token) (follows : List Token → Prop) (a : α) : Prop :=
  ∀ ⦃b : α⦄ ⦃r s : List Token⦄, follows r → follows s → tokens a ++ r = tokens b ++ s →
    a = b ∧ r = s

/-- Every phrase starts with a token of this class. -/
def Starts {α : Type} (tokens : α → List Token) (first : Token → Prop) : Prop :=
  ∀ a, ∃ t ts, tokens a = t :: ts ∧ first t

/-- A repetition is told from what follows it if its items are told from the next item and
from what follows, and if what follows does not start like an item. -/
theorem delimits_flatMap {α : Type} {tokens : α → List Token} (first : Token → Prop)
    {between follows : List Token → Prop} {as : List α} (hstarts : Starts tokens first)
    (hitem : ∀ a ∈ as, Delimits tokens between a)
    (hnext : ∀ t ts, first t → between (t :: ts)) (hlast : ∀ r, follows r → between r)
    (hfollows : ∀ r, follows r → ∀ t ∈ r.head?, ¬ first t) :
    Delimits (List.flatMap tokens) follows as := by
  have hend (b : α) {r s : List Token} (hr : follows r) : r ≠ tokens b ++ s := by
    obtain ⟨t, ts, hb, ht⟩ := hstarts b
    rintro rfl
    exact hfollows _ hr t (by rw [hb]; rfl) ht
  have hbetween (bs : List α) {r : List Token} (hr : follows r) :
      between (bs.flatMap tokens ++ r) := by
    cases bs with
    | nil => exact hlast r hr
    | cons b bs =>
        obtain ⟨t, ts, hb, ht⟩ := hstarts b
        rw [List.flatMap_cons, hb]
        exact hnext t _ ht
  induction as with
  | nil =>
      intro bs r s hr _ h
      cases bs with
      | nil => exact ⟨rfl, h⟩
      | cons b bs =>
          rw [List.flatMap_cons, List.append_assoc] at h
          exact absurd h (hend b hr)
  | cons a as ih =>
      intro bs r s hr hs h
      cases bs with
      | nil =>
          rw [List.flatMap_cons, List.append_assoc] at h
          exact absurd h.symm (hend a hs)
      | cons b bs =>
          rw [List.flatMap_cons, List.flatMap_cons, List.append_assoc, List.append_assoc] at h
          obtain ⟨rfl, hrest⟩ := hitem a List.mem_cons_self (hbetween as hr) (hbetween bs hs) h
          obtain ⟨rfl, rfl⟩ := ih (fun c hc => hitem c (List.mem_cons_of_mem a hc)) hr hs hrest
          exact ⟨rfl, rfl⟩

theorem delimits_dot (x : String) : Delimits dot (fun _ => True) x := by
  intro y r s _ _ h
  simpa [dot] using h

theorem Name.delimits (n : Name) : Delimits Name.tokens NameEnds n := by
  obtain ⟨x, xs⟩ := n
  rintro ⟨y, ys⟩ r s hr hs h
  obtain ⟨hfirst, hmore⟩ := List.cons.inj h
  obtain ⟨rfl⟩ := Token.ident.inj hfirst
  have hdots : Delimits (List.flatMap dot) NameEnds xs :=
    delimits_flatMap (· = .punct '.') (fun z => ⟨_, _, rfl, rfl⟩)
      (fun z _ => delimits_dot z) (fun _ _ _ => trivial) (fun _ _ => trivial) fun _ hr => hr
  obtain ⟨rfl, rfl⟩ := hdots hr hs hmore
  exact ⟨rfl, rfl⟩

/-- What follows a list of statements: the brace that closes their block. -/
def Closes (c : Char) (r : List Token) : Prop :=
  ∃ rest, r = .punct c :: rest

/-- The words that a statement can start with. -/
def IsKeyword (t : Token) : Prop :=
  ∃ word ∈ ["write", "emit", "if", "for"], t = .ident word

theorem Statement.starts : Starts Statement.tokens IsKeyword := by
  intro s
  obtain ⟨word, ts, hs, hword⟩ := s.spells.head
  exact ⟨_, ts, hs, word, hword, rfl⟩

theorem statementsTokens_eq (ss : List Statement) :
    statementsTokens ss = ss.flatMap Statement.tokens := by
  induction ss with
  | nil => rw [statementsTokens, List.flatMap_nil]
  | cons s ss ih => rw [statementsTokens, ih, List.flatMap_cons]

theorem delimits_statements {ss : List Statement}
    (h : ∀ s ∈ ss, Delimits Statement.tokens StatementEnds s) :
    Delimits statementsTokens (Closes '}') ss := by
  intro ss' r s hr hs heq
  rw [statementsTokens_eq, statementsTokens_eq] at heq
  refine delimits_flatMap IsKeyword Statement.starts h ?_ ?_ ?_ hr hs heq
  · rintro t ts ⟨word, hword, rfl⟩
    refine statementEnds_cons fun heq => ?_
    cases heq
    exact absurd hword (by decide)
  · rintro r ⟨rest, rfl⟩
    exact statementEnds_cons (by decide)
  · rintro r ⟨rest, rfl⟩ t ht ⟨word, -, rfl⟩
    simp at ht

theorem delimits_block {ss : List Statement}
    (h : ∀ s ∈ ss, Delimits Statement.tokens StatementEnds s) :
    Delimits (fun ss => braces (statementsTokens ss)) (fun _ => True) ss := by
  intro ss' r s _ _ heq
  simp only [braces, List.append_assoc, List.cons_append, List.cons.injEq, true_and] at heq
  obtain ⟨rfl, hrest⟩ := delimits_statements h ⟨_, rfl⟩ ⟨_, rfl⟩ heq
  exact ⟨rfl, by simpa using hrest⟩

theorem nameEnds_braces (inner r : List Token) : NameEnds (braces inner ++ r) :=
  nameEnds_cons (by decide)

/-- A condition is told from its block. -/
theorem condition_inj {negate negate' : Bool} {cond cond' : Name} {inner inner' r s : List Token}
    (h : bang negate ++ (cond.tokens ++ (braces inner ++ r))
      = bang negate' ++ (cond'.tokens ++ (braces inner' ++ s))) :
    negate = negate' ∧ cond = cond' ∧ braces inner ++ r = braces inner' ++ s := by
  -- A name starts with an identifier, so the mark is there on both sides or on neither.
  obtain rfl : negate = negate' := by
    cases negate <;> cases negate' <;> simp [bang, Name.tokens] at h <;> rfl
  obtain ⟨rfl, hblock⟩ :=
    cond.delimits (nameEnds_braces inner r) (nameEnds_braces inner' s) (List.append_cancel_left h)
  exact ⟨rfl, rfl, hblock⟩

theorem Statement.delimits (s : Statement) : Delimits Statement.tokens StatementEnds s := by
  intro t r r' hr hr' h
  match s with
  | .write text =>
      cases t with
      | write text' => simpa [Statement.tokens] using h
      | emit | branch | branchElse | forEach => simp [Statement.tokens] at h
  | .emit path =>
      cases t with
      | emit path' =>
          simp only [Statement.tokens, List.append_assoc, List.cons_append, List.cons.injEq,
            true_and] at h
          obtain ⟨rfl, hend⟩ :=
            path.delimits (nameEnds_cons (by decide)) (nameEnds_cons (by decide)) h
          exact ⟨rfl, (List.cons.inj hend).2⟩
      | write | branch | branchElse | forEach => simp [Statement.tokens] at h
  | .branch negate cond yes =>
      have hyes := delimits_block fun x (hx : x ∈ yes) => Statement.delimits x
      cases t with
      | branch negate' cond' yes' =>
          simp only [Statement.tokens, List.append_assoc, List.cons_append, List.cons.injEq,
            true_and] at h
          obtain ⟨rfl, rfl, hblock⟩ := condition_inj h
          obtain ⟨rfl, rfl⟩ := hyes trivial trivial hblock
          exact ⟨rfl, rfl⟩
      | branchElse negate' cond' yes' no' =>
          simp only [Statement.tokens, List.append_assoc, List.cons_append, List.cons.injEq,
            true_and] at h
          obtain ⟨-, -, hblock⟩ := condition_inj h
          obtain ⟨-, rfl⟩ := hyes trivial trivial hblock
          exact absurd rfl (hr (.ident "else") rfl)
      | write | emit | forEach => simp [Statement.tokens] at h
  | .branchElse negate cond yes no =>
      have hyes := delimits_block fun x (hx : x ∈ yes) => Statement.delimits x
      have hno := delimits_block fun x (hx : x ∈ no) => Statement.delimits x
      cases t with
      | branchElse negate' cond' yes' no' =>
          simp only [Statement.tokens, List.append_assoc, List.cons_append, List.cons.injEq,
            true_and] at h
          obtain ⟨rfl, rfl, hblock⟩ := condition_inj h
          obtain ⟨rfl, helse⟩ := hyes trivial trivial hblock
          obtain ⟨rfl, rfl⟩ := hno trivial trivial (List.cons.inj helse).2
          exact ⟨rfl, rfl⟩
      | branch negate' cond' yes' =>
          simp only [Statement.tokens, List.append_assoc, List.cons_append, List.cons.injEq,
            true_and] at h
          obtain ⟨-, -, hblock⟩ := condition_inj h
          obtain ⟨-, rfl⟩ := hyes trivial trivial hblock
          exact absurd rfl (hr' (.ident "else") rfl)
      | write | emit | forEach => simp [Statement.tokens] at h
  | .forEach binding source body =>
      have hbody := delimits_block fun x (hx : x ∈ body) => Statement.delimits x
      cases t with
      | forEach binding' source' body' =>
          simp only [Statement.tokens, List.append_assoc, List.cons_append, List.cons.injEq,
            true_and] at h
          obtain ⟨hbinding, hsource⟩ := h
          obtain rfl := Token.ident.inj hbinding
          obtain ⟨rfl, hblock⟩ :=
            source.delimits (nameEnds_braces _ _) (nameEnds_braces _ _) hsource
          obtain ⟨rfl, rfl⟩ := hbody trivial trivial hblock
          exact ⟨rfl, rfl⟩
      | write | emit | branch | branchElse => simp [Statement.tokens] at h
termination_by sizeOf s
decreasing_by
  all_goals
    have hlt := List.sizeOf_lt_of_mem hx
    simp only [Statement.branch.sizeOf_spec, Statement.branchElse.sizeOf_spec,
      Statement.forEach.sizeOf_spec]
    omega

theorem Args.delimits (args : Args) : Delimits Args.tokens (Closes ')') args := by
  induction args with
  | nil =>
      rintro args' r s ⟨rest, rfl⟩ ⟨rest', rfl⟩ h
      cases args' with
      | nil => exact ⟨rfl, h⟩
      | one | cons => simp [Args.tokens] at h
  | one text =>
      rintro args' r s ⟨rest, rfl⟩ ⟨rest', rfl⟩ h
      cases args' with
      | one text' => simpa [Args.tokens] using h
      | nil | cons => simp [Args.tokens] at h
  | cons text tail ih =>
      intro args' r s hr hs h
      cases args' with
      | cons text' tail' =>
          simp only [Args.tokens, List.cons_append, List.cons.injEq, Token.str.injEq,
            true_and] at h
          obtain ⟨rfl, htail⟩ := h
          obtain ⟨rfl, rfl⟩ := ih hr hs htail
          exact ⟨rfl, rfl⟩
      | nil =>
          obtain ⟨rest', rfl⟩ := hs
          simp [Args.tokens] at h
      | one =>
          obtain ⟨rest', rfl⟩ := hs
          simp [Args.tokens] at h

theorem delimits_parens (parens : Option Args) :
    Delimits parensTokens (Closes ']') parens := by
  rintro parens' r s ⟨rest, rfl⟩ ⟨rest', rfl⟩ h
  cases parens with
  | none =>
      cases parens' with
      | none => exact ⟨rfl, h⟩
      | some args' => simp [parensTokens] at h
  | some args =>
      cases parens' with
      | none => simp [parensTokens] at h
      | some args' =>
          simp only [parensTokens, List.append_assoc, List.cons_append, List.cons.injEq,
            true_and] at h
          obtain ⟨rfl, hend⟩ := args.delimits ⟨_, rfl⟩ ⟨_, rfl⟩ h
          exact ⟨rfl, (List.cons.inj hend).2⟩

theorem nameEnds_parens (parens : Option Args) (rest : List Token) :
    NameEnds (parensTokens parens ++ .punct ']' :: rest) := by
  cases parens with
  | none => exact nameEnds_cons (by decide)
  | some args => exact nameEnds_cons (by decide)

theorem Attribute.delimits (a : Attribute) : Delimits Attribute.tokens (fun _ => True) a := by
  obtain ⟨name, parens⟩ := a
  rintro ⟨name', parens'⟩ r s - - h
  simp only [Attribute.tokens, List.append_assoc, List.cons_append, List.nil_append,
    List.cons.injEq, true_and] at h
  obtain ⟨rfl, hparens⟩ := name.delimits (nameEnds_parens _ _) (nameEnds_parens _ _) h
  obtain ⟨rfl, hend⟩ := delimits_parens parens ⟨_, rfl⟩ ⟨_, rfl⟩ hparens
  exact ⟨rfl, (List.cons.inj hend).2⟩

/-- The word that starts a declaration behind its attributes. -/
def IsKindWord (r : List Token) : Prop :=
  ∃ (kind : DeclarationKind) (rest : List Token), r = .ident kind.keyword :: rest

theorem delimits_attributes (as : List Attribute) :
    Delimits (List.flatMap Attribute.tokens) IsKindWord as := by
  refine delimits_flatMap (· = .punct '#') (fun a => ⟨_, _, rfl, rfl⟩)
    (fun a _ => a.delimits) (fun _ _ _ => trivial) (fun _ _ => trivial) ?_
  rintro r ⟨kind, rest, rfl⟩ t ht rfl
  simp at ht

theorem delimits_furtherBases (bases : List Name) :
    Delimits (List.flatMap furtherBase) (Closes '{') bases := by
  have hbase (n : Name) : Delimits furtherBase NameEnds n := by
    intro n' r s hr hs h
    obtain ⟨rfl, rfl⟩ := n.delimits hr hs (List.cons.inj h).2
    exact ⟨rfl, rfl⟩
  refine delimits_flatMap (· = .punct ',') (fun n => ⟨_, _, rfl, rfl⟩) (fun n _ => hbase n)
    ?_ ?_ ?_
  · rintro t ts rfl
    exact nameEnds_cons (by decide)
  · rintro r ⟨rest, rfl⟩
    exact nameEnds_cons (by decide)
  · rintro r ⟨rest, rfl⟩ t ht rfl
    simp at ht

theorem nameEnds_furtherBases (bases : List Name) {r : List Token} (hr : Closes '{' r) :
    NameEnds (bases.flatMap furtherBase ++ r) := by
  obtain ⟨rest, rfl⟩ := hr
  cases bases with
  | nil => exact nameEnds_cons (by decide)
  | cons base bases => exact nameEnds_cons (by decide)

theorem delimits_heritage (bases : List Name) : Delimits heritageTokens (Closes '{') bases := by
  intro bases' r s hr hs h
  cases bases with
  | nil =>
      cases bases' with
      | nil => exact ⟨rfl, h⟩
      | cons base' bases' =>
          obtain ⟨rest, rfl⟩ := hr
          simp [heritageTokens] at h
  | cons base bases =>
      cases bases' with
      | nil =>
          obtain ⟨rest, rfl⟩ := hs
          simp [heritageTokens] at h
      | cons base' bases' =>
          simp only [heritageTokens, List.append_assoc, List.cons_append, List.cons.injEq,
            true_and] at h
          obtain ⟨rfl, hmore⟩ :=
            base.delimits (nameEnds_furtherBases bases hr) (nameEnds_furtherBases bases' hs) h
          obtain ⟨rfl, rfl⟩ := delimits_furtherBases bases hr hs hmore
          exact ⟨rfl, rfl⟩

theorem delimits_render (render : Option (List Statement)) :
    Delimits renderTokens (Closes '}') render := by
  rintro render' r s ⟨rest, rfl⟩ ⟨rest', rfl⟩ h
  cases render with
  | none =>
      cases render' with
      | none => exact ⟨rfl, h⟩
      | some block' => simp [renderTokens] at h
  | some block =>
      cases render' with
      | none => simp [renderTokens] at h
      | some block' =>
          obtain ⟨rfl, hend⟩ := delimits_block (fun s _ => s.delimits) trivial trivial
            (List.cons.inj h).2
          exact ⟨rfl, hend⟩

theorem keyword_injective : Function.Injective DeclarationKind.keyword := by
  intro kind kind' h
  cases kind with
  | classType =>
      cases kind' with
      | classType => rfl
      | interfaceType => exact absurd h (by decide)
  | interfaceType =>
      cases kind' with
      | classType => exact absurd h (by decide)
      | interfaceType => rfl

theorem nameEnds_heritage (bases : List Name) (rest : List Token) :
    NameEnds (heritageTokens bases ++ .punct '{' :: rest) := by
  cases bases with
  | nil => exact nameEnds_cons (by decide)
  | cons base bases => exact nameEnds_cons (by decide)

theorem Declaration.delimits (d : Declaration) :
    Delimits Declaration.tokens (fun _ => True) d := by
  obtain ⟨attributes, kind, name, bases, render⟩ := d
  rintro ⟨attributes', kind', name', bases', render'⟩ r s - - h
  simp only [Declaration.tokens, List.append_assoc, List.cons_append, List.nil_append] at h
  obtain ⟨rfl, hword⟩ := delimits_attributes attributes ⟨_, _, rfl⟩ ⟨_, _, rfl⟩ h
  obtain ⟨hkind, hname⟩ := List.cons.inj hword
  obtain rfl := keyword_injective (Token.ident.inj hkind)
  obtain ⟨rfl, hbases⟩ := name.delimits (nameEnds_heritage _ _) (nameEnds_heritage _ _) hname
  obtain ⟨rfl, hbody⟩ := delimits_heritage bases ⟨_, rfl⟩ ⟨_, rfl⟩ hbases
  obtain ⟨rfl, hend⟩ := delimits_render render ⟨_, rfl⟩ ⟨_, rfl⟩ (List.cons.inj hbody).2
  exact ⟨rfl, (List.cons.inj hend).2⟩

/-- The grammar is unambiguous: tokens have at most one derivation. -/
theorem typesTokens_injective : Function.Injective typesTokens := by
  intro ds ds' h
  have hnil : Delimits (List.flatMap Declaration.tokens) (· = []) ds := by
    refine delimits_flatMap (fun _ => True) ?_ (fun d _ => d.delimits)
      (fun _ _ _ => trivial) (fun _ _ => trivial) ?_
    · intro d
      obtain ⟨t, ts, ht⟩ := List.exists_cons_of_length_pos d.spells.length_pos
      exact ⟨t, ts, ht, trivial⟩
    · rintro r rfl t ht
      cases ht
  exact (hnil rfl rfl (congrArg (· ++ []) h)).1

end ViewPress.Source.Derivation
