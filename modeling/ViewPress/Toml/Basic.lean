/-!
# TOML values and tables

A document fills one table step by step. Headers open tables, dotted keys reach
into tables that they make on the way, and every key is written once. How a table
came about decides what may still be added to it:

* one made on the way to a header may get its own header later;
* one made by dotted keys grows by dotted keys only;
* one opened by a header has had its only header;
* one written inline is finished.
-/

namespace ViewPress

inductive TableForm where
  | implicit
  | dotted
  | header
  | inline
  deriving DecidableEq, Repr

/-- A TOML value. Numbers, dates and times are all `scalar`, since no setting takes
one. -/
inductive Toml where
  | str (s : String)
  | bool (b : Bool)
  | scalar
  | array (items : List Toml)
  | table (form : TableForm) (entries : List (String × Toml))
  | tables (items : List Toml)
  deriving Repr, Inhabited

namespace Toml

abbrev Entries := List (String × Toml)

/-- Changes or adds the entry of a key. -/
def update (key : String) (f : Option Toml → Option Toml) : Entries → Option Entries
  | [] => (f none).map fun v => [(key, v)]
  | (k, v) :: rest =>
      if k == key then (f (some v)).map fun v => (k, v) :: rest
      else (update key f rest).map ((k, v) :: ·)

/-- Changes the last of a list of tables. -/
def updateLast (f : Entries → Option Entries) : List Toml → Option (List Toml)
  | [] => none
  | [.table form entries] => (f entries).map fun entries => [.table form entries]
  | v :: rest => (updateLast f rest).map (v :: ·)

/-- Goes to the table of a header, making tables on the way, and changes it. -/
def atHeader (f : Entries → Option Entries) : List String → Entries → Option Entries
  | [], entries => f entries
  | key :: path, entries =>
      entries |> update key fun
        | none => (atHeader f path []).map (.table .implicit)
        | some (.table .inline _) => none
        | some (.table form entries) => (atHeader f path entries).map (.table form)
        | some (.tables items) => (updateLast (atHeader f path) items).map .tables
        | some _ => none

/-- Opens the table of a header. -/
def openTable (path : List String) (key : String) (root : Entries) : Option Entries :=
  root |> atHeader (fun entries => entries |> update key fun
    | none => some (.table .header [])
    | some (.table .implicit entries) => some (.table .header entries)
    | some _ => none) path

/-- Adds a table to the list of a double header. -/
def openArray (path : List String) (key : String) (root : Entries) : Option Entries :=
  root |> atHeader (fun entries => entries |> update key fun
    | none => some (.tables [.table .header []])
    | some (.tables items) => some (.tables (items ++ [.table .header []]))
    | some _ => none) path

/-- Enters a value under a dotted key. -/
def insert (value : Toml) (key : String) : List String → Entries → Option Entries
  | [], entries =>
      entries |> update key fun
        | none => some value
        | some _ => none
  | k :: path, entries =>
      entries |> update k fun
        | none => (insert value key path []).map (.table .dotted)
        | some (.table .dotted entries) => (insert value key path entries).map (.table .dotted)
        | some (.table .implicit entries) =>
            if path.isEmpty then none
            else (insert value key path entries).map (.table .implicit)
        | some (.tables items) =>
            if path.isEmpty then none
            else (updateLast (insert value key path) items).map .tables
        | some _ => none

end Toml

end ViewPress
