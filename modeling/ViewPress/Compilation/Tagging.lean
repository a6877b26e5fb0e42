import ViewPress.Compilation.Symbol

/-!
# Tagging pages

The view of a unit is its first page class. It gets one `ViewPath` attribute with
the path of the unit, in place of any it had; the other page classes lose theirs,
so that one path never names two types. Nothing else changes.
-/

namespace ViewPress

open Source (Attribute Declaration Tree)

/-- Whether a declaration is a class that derives from the page marker. -/
def Symbols.isPageClass (symbols : Symbols) (d : Declaration) : Bool :=
  d.kind == .classType && (symbols.find? d.name).any (·.kind == .classType)
    && symbols.baseImplements d Module.pageMarker

def Source.Declaration.untagged (d : Declaration) : Declaration :=
  { d with attributes := d.attributes.filter (·.name != Module.viewPathAttribute) }

/-- The declaration with `path` as its only view path. -/
def Source.Declaration.tagged (d : Declaration) (path : String) : Declaration :=
  { d with
    attributes := d.untagged.attributes
      ++ [{ name := Module.viewPathAttribute, args := [path] }] }

/-- Tags the first page, and takes tags off the pages after it. -/
def tagTypes (isPage : Declaration → Bool) (path : String) :
    (viewTagged : Bool) → List Declaration → List Declaration
  | _, [] => []
  | viewTagged, d :: rest =>
      if isPage d then
        (if viewTagged then d.untagged else d.tagged path) :: tagTypes isPage path true rest
      else d :: tagTypes isPage path viewTagged rest

def tagTree (symbols : Symbols) (tree : Tree) : Tree :=
  { tree with types := tagTypes symbols.isPageClass tree.path false tree.types }

/-- Tags all trees, each by the symbols of the compilation as it is. -/
def Compilation.tagged (c : Compilation) : Compilation :=
  { c with trees := c.trees.map (tagTree c.symbols) }

end ViewPress
