namespace ViewCache

inductive Json
  | null
  | bool (b : Bool)
  | int (n : Int)
  /-- any other number, as it is written -/
  | real (literal : String)
  | str (s : String)
  | arr (items : List Json)
  | obj (members : List (String × Json))
  deriving Repr

namespace Json

def ofOption (s : Option String) : Json := s.elim null str

/-- Members in order of their names at every level; members of equal names keep their order. -/
def sorted : Json → Json
  | arr items => arr (sortedItems items)
  | obj members => obj ((sortedMembers members).mergeSort fun a b => a.1 ≤ b.1)
  | v => v
where
  sortedItems : List Json → List Json
    | [] => []
    | v :: rest => v.sorted :: sortedItems rest
  sortedMembers : List (String × Json) → List (String × Json)
    | [] => []
    | (name, v) :: rest => (name, v.sorted) :: sortedMembers rest

end Json

end ViewCache
