import ViewPress.Source.Tree
import ViewPress.Source.Token
import ViewPress.Text.Identifier

/-!
# The grammar of the view language

The grammar that `Source.Parser` states in its header, as relations between the
tokens of a phrase and the tree they spell. A tree says where its parts stand and
tokens do not, so the trees here have all their spans erased, and `erase` is what
a parsed tree is compared through.

Nothing in the rules knows about look-ahead, budgets or the order in which a
reader tries things. An attribute may have an empty list of arguments and a comma
after the last one; apart from that each tree has one spelling.
-/

namespace ViewPress.Source

/-! ## Trees without spans -/

def ValuePath.erase (p : ValuePath) : ValuePath :=
  { segments := p.segments }

mutual

def Statement.erase : Statement → Statement
  | .write text => .write text
  | .emit path => .emit path.erase
  | .branch cond negate yes none => .branch cond.erase negate (eraseStatements yes) none
  | .branch cond negate yes (some no) =>
      .branch cond.erase negate (eraseStatements yes) (some (eraseStatements no))
  | .forEach binding source body => .forEach binding source.erase (eraseStatements body)

def eraseStatements : List Statement → List Statement
  | [] => []
  | s :: rest => s.erase :: eraseStatements rest

end

def Attribute.erase (a : Attribute) : Attribute :=
  { name := a.name, args := a.args }

def BaseRef.erase (b : BaseRef) : BaseRef :=
  { name := b.name }

/-- The declaration with no part of it standing anywhere. -/
def Declaration.erase (d : Declaration) : Declaration where
  attributes := d.attributes.map Attribute.erase
  kind := d.kind
  name := d.name
  bases := d.bases.map BaseRef.erase
  render := d.render.map eraseStatements

namespace Grammar

/-! ## The rules -/

/-- `name := identifier ("." identifier)*` -/
inductive Name : List Token → List String → Prop where
  | ident (x : String) : Name [.ident x] [x]
  | dot (x : String) {ts : List Token} {xs : List String} (h : Name ts xs) :
      Name (.ident x :: .punct '.' :: ts) (x :: xs)

/-- `"!"?` -/
inductive Bang : List Token → Bool → Prop where
  | absent : Bang [] false
  | present : Bang [.punct '!'] true

mutual

/-- `statement := "write" string ";" | "emit" name ";" | "if" "!"? name block ("else" block)?
| "for" identifier "in" name block` -/
inductive Statement : List Token → Source.Statement → Prop where
  | write (text : String) : Statement [.ident "write", .str text, .punct ';'] (.write text)
  | emit {ts : List Token} {segments : List String} (path : Name ts segments) :
      Statement (.ident "emit" :: ts ++ [.punct ';']) (.emit { segments })
  | branch {bs cs ys : List Token} {negate : Bool} {segments : List String}
      {yes : List Source.Statement} (bang : Bang bs negate) (cond : Name cs segments)
      (block : Block ys yes) :
      Statement (.ident "if" :: bs ++ cs ++ ys) (.branch { segments } negate yes none)
  | branchElse {bs cs ys ns : List Token} {negate : Bool} {segments : List String}
      {yes no : List Source.Statement} (bang : Bang bs negate) (cond : Name cs segments)
      (block : Block ys yes) (other : Block ns no) :
      Statement (.ident "if" :: bs ++ cs ++ ys ++ .ident "else" :: ns)
        (.branch { segments } negate yes (some no))
  | forEach (binding : String) {ss bs : List Token} {segments : List String}
      {body : List Source.Statement} (source : Name ss segments) (block : Block bs body) :
      Statement (.ident "for" :: .ident binding :: .ident "in" :: ss ++ bs)
        (.forEach binding { segments } body)

/-- `block := "{" statement* "}"` -/
inductive Block : List Token → List Source.Statement → Prop where
  | braces {ts : List Token} {ss : List Source.Statement} (h : Statements ts ss) :
      Block (.punct '{' :: ts ++ [.punct '}']) ss

/-- `statement*` -/
inductive Statements : List Token → List Source.Statement → Prop where
  | nil : Statements [] []
  | cons {ts us : List Token} {s : Source.Statement} {ss : List Source.Statement}
      (head : Statement ts s) (tail : Statements us ss) : Statements (ts ++ us) (s :: ss)

end

/-- `(string ("," string)* ","?)?` -/
inductive Args : List Token → List String → Prop where
  | nil : Args [] []
  | one (text : String) : Args [.str text] [text]
  | cons (text : String) {ts : List Token} {texts : List String} (tail : Args ts texts) :
      Args (.str text :: .punct ',' :: ts) (text :: texts)

/-- `("(" args ")")?` -/
inductive Parens : List Token → List String → Prop where
  | absent : Parens [] []
  | present {ts : List Token} {texts : List String} (h : Args ts texts) :
      Parens (.punct '(' :: ts ++ [.punct ')']) texts

/-- `attribute := "#" "[" name parens "]"` -/
inductive Attribute : List Token → Source.Attribute → Prop where
  | brackets {ns ps : List Token} {segments args : List String} (name : Name ns segments)
      (parens : Parens ps args) :
      Attribute (.punct '#' :: .punct '[' :: ns ++ ps ++ [.punct ']'])
        { name := Text.joinDots segments, args }

/-- `attribute*` -/
inductive Attributes : List Token → List Source.Attribute → Prop where
  | nil : Attributes [] []
  | cons {ts us : List Token} {a : Source.Attribute} {as : List Source.Attribute}
      (head : Attribute ts a) (tail : Attributes us as) : Attributes (ts ++ us) (a :: as)

/-- `name ("," name)*` -/
inductive Bases : List Token → List BaseRef → Prop where
  | one {ts : List Token} {segments : List String} (name : Name ts segments) :
      Bases ts [{ name := Text.joinDots segments }]
  | cons {ts us : List Token} {segments : List String} {bases : List BaseRef}
      (name : Name ts segments) (tail : Bases us bases) :
      Bases (ts ++ .punct ',' :: us) ({ name := Text.joinDots segments } :: bases)

/-- `(":" bases)?` -/
inductive Heritage : List Token → List BaseRef → Prop where
  | absent : Heritage [] []
  | present {ts : List Token} {bases : List BaseRef} (h : Bases ts bases) :
      Heritage (.punct ':' :: ts) bases

/-- `"class" | "interface"` -/
inductive Kind : Token → DeclarationKind → Prop where
  | classType : Kind (.ident "class") .classType
  | interfaceType : Kind (.ident "interface") .interfaceType

/-- `("render" block)?` -/
inductive Render : List Token → Option (List Source.Statement) → Prop where
  | absent : Render [] none
  | present {ts : List Token} {block : List Source.Statement} (h : Block ts block) :
      Render (.ident "render" :: ts) (some block)

/-- `declaration := attribute* kind name heritage "{" render "}"` -/
inductive Declaration : List Token → Source.Declaration → Prop where
  | mk {as ns hs rs : List Token} {k : Token} {attributes : List Source.Attribute}
      {kind : DeclarationKind} {segments : List String} {bases : List BaseRef}
      {render : Option (List Source.Statement)} (attrs : Attributes as attributes)
      (word : Kind k kind) (name : Name ns segments) (heritage : Heritage hs bases)
      (member : Render rs render) :
      Declaration (as ++ k :: ns ++ hs ++ .punct '{' :: rs ++ [.punct '}'])
        { attributes, kind, name := Text.joinDots segments, bases, render }

/-- `types := declaration*` -/
inductive Types : List Token → List Source.Declaration → Prop where
  | nil : Types [] []
  | cons {ts us : List Token} {d : Source.Declaration} {ds : List Source.Declaration}
      (head : Declaration ts d) (tail : Types us ds) : Types (ts ++ us) (d :: ds)

end Grammar

end ViewPress.Source
