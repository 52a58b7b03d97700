/-! Finite maps from names, as lists in the order of the names, each name once. -/
namespace SceneStream

abbrev Named (α : Type) := List (String × α)

namespace Named
variable {α : Type}

def insert (m : Named α) (name : String) (x : α) : Named α :=
  match m with
  | [] => [(name, x)]
  | (k, y) :: rest =>
    if name < k then (name, x) :: (k, y) :: rest
    else if name = k then (name, x) :: rest
    else (k, y) :: insert rest name x

def erase (m : Named α) (name : String) : Named α := m.filter (·.1 != name)
def get? (m : Named α) (name : String) : Option α := m.lookup name
def contains (m : Named α) (name : String) : Bool := (m.lookup name).isSome

end Named
end SceneStream
