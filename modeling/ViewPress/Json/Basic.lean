import ViewPress.Json.Number

/-!
# JSON values

Modules, debug information, dependency manifests and view models are JSON. The
members of an object keep the order in which they were written.
-/

namespace ViewPress

/-- A JSON value. `garbled` is what well-formed text stands for when it spells no
value: a string or key that is not Unicode text, or a number out of range. A
reader that skips a value does not mind it. -/
inductive Json where
  | null
  | bool (b : Bool)
  | num (n : Number)
  | str (s : String)
  | arr (items : List Json)
  | obj (members : List (String × Json))
  | garbled
  deriving Repr, Inhabited

namespace Json

/-- How many arrays and objects may be nested in what is read. -/
def nestingLimit : Nat := 127

mutual

/-- The value with every object in bytewise order of its keys, of which the last
one written counts. Fails on text that spells no value and past the nesting
limit. -/
def canonical? (room : Nat) : Json → Option Json
  | .arr items =>
      if room = 0 then none else (canonicalItems? (room - 1) items).map .arr
  | .obj members =>
      if room = 0 then none else (canonicalMembers? (room - 1) members).map .obj
  | .garbled => none
  | j => some j

def canonicalItems? (room : Nat) : List Json → Option (List Json)
  | [] => some []
  | j :: js => do return (← canonical? room j) :: (← canonicalItems? room js)

def canonicalMembers? (room : Nat) : List (String × Json) → Option (List (String × Json))
  | [] => some []
  | (key, j) :: rest => do
      let j ← canonical? room j
      let rest ← canonicalMembers? room rest
      if rest.any (·.1 == key) then return rest else return insertMember key j rest
where
  /-- Puts a member in front of the first larger key. -/
  insertMember (key : String) (j : Json) : List (String × Json) → List (String × Json)
    | [] => [(key, j)]
    | m :: ms => if key < m.1 then (key, j) :: m :: ms else m :: insertMember key j ms

end

end Json

end ViewPress
