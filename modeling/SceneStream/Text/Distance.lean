/-! Edit distance of words: the fewest insertions, deletions and replacements of one character. -/
namespace SceneStream.Text

/-- The next row of distances: `above` is the row of the word without `c`, its head already taken as
`corner`, and `left` is the entry just written. -/
def distanceRow (c : Char) : List Char → Nat → List Nat → Nat → List Nat
  | [], _, _, _ => []
  | _, _, [], _ => []
  | d :: ds, corner, up :: above, left =>
    let here := min (min (up + 1) (left + 1)) (if c == d then corner else corner + 1)
    here :: distanceRow c ds up above here

def distanceStep (word : List Char) (row : List Nat) (c : Char) : List Nat :=
  match row with
  | [] => []
  | corner :: above => (corner + 1) :: distanceRow c word corner above (corner + 1)

def distance (a b : String) : Nat :=
  let word := b.toList
  let last := a.toList.foldl (distanceStep word) (List.range (word.length + 1))
  last.getLast?.getD 0

example : distance "kitten" "sitting" = 3 := by decide +kernel
example : distance "" "abc" = 3 := by decide +kernel

end SceneStream.Text
