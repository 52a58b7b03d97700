import SceneStream.Problem

/-! Parts of lists that are read by their place. To read past the end is a crash. -/
namespace SceneStream.Part
variable {α : Type}

def item (l : Array α) (i : Nat) : Except Problem α :=
  match l[i]? with
  | some x => .ok x
  | none => .error (.crash s!"index out of bounds: the len is {l.size} but the index is {i}")

def leading (n : Nat) (l : List α) : Except Problem (List α) :=
  if n ≤ l.length then .ok (l.take n)
  else .error (.crash s!"range end index {n} out of range for slice of length {l.length}")

end SceneStream.Part
