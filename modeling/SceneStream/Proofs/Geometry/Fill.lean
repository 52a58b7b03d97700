import SceneStream.Geometry.Grid
import SceneStream.Proofs.Work
import Mathlib.Data.Nat.Dist

/-! Which normal each sample of a grid is given: its own, else the nearest one of its column, else the
fallback. -/
namespace SceneStream.Geometry.Grid
variable {β : Type} {uCount vCount k : Nat} {given : List (Option β)} {fallback : β}

/-- The entry at a row in the column of sample `k`. -/
def columnAt (uCount : Nat) (given : List (Option β)) (k row : Nat) : Option (Option β) :=
  given[row * uCount + k % uCount]?

/-- The rows in the order a sample of row `row` looks at them. Some may lie past the last row. -/
def rowsAround (vCount row : Nat) : List Nat :=
  (List.range' 1 (vCount - 1)).flatMap fun d => (if d ≤ row then [row - d] else []) ++ [row + d]

/-- The normal of sample `k` with every read checked: none if an entry out of range is read, or if a
column is looked for in a grid that has no columns. -/
def fillAt? (uCount vCount : Nat) (given : List (Option β)) (fallback : β) (k : Nat) : Option β := do
  match ← given[k]? with
  | some n => some n
  | none =>
    if uCount = 0 then none
    else
      let near ← (rowsAround vCount (k / uCount)).findSomeM? fun row =>
        if row < vCount then columnAt uCount given k row else some none
      some (near.getD fallback)

def fill? (uCount vCount : Nat) (given : List (Option β)) (fallback : β) : Option (List β) :=
  (List.range given.length).mapM (fillAt? uCount vCount given fallback)

/-- Seen from `row`, row `r` is closer than row `q`, or as close and not above it. -/
def Nearer (row r q : Nat) : Prop :=
  row.dist r < row.dist q ∨ row.dist r = row.dist q ∧ r ≤ q

inductive Filled (uCount vCount : Nat) (given : List (Option β)) (fallback : β) (k : Nat) : β → Prop
  | own {n} (held : given[k]? = some (some n)) : Filled uCount vCount given fallback k n
  | near {row n} (missing : given[k]? = some none) (inside : row < vCount)
      (held : columnAt uCount given k row = some (some n))
      (nearest : ∀ other < vCount, ∀ m, columnAt uCount given k other = some (some m) →
        Nearer (k / uCount) row other) : Filled uCount vCount given fallback k n
  | fallback (missing : given[k]? = some none)
      (blank : ∀ row < vCount, columnAt uCount given k row = some none) :
      Filled uCount vCount given fallback k fallback

theorem nearerBoth {row r q : Nat} (one : Nearer row r q) (other : Nearer row q r) : r = q := by
  unfold Nearer at one other
  omega

theorem columnOwn : columnAt uCount given k (k / uCount) = given[k]? := by
  rw [columnAt, Nat.div_add_mod']

theorem columnRead (sized : given.length = uCount * vCount) (wide : 0 < uCount) {row : Nat}
    (inside : row < vCount) : ∃ n, columnAt uCount given k row = some n :=
  ⟨_, List.getElem?_eq_getElem (sized ▸ inColumn wide inside)⟩

theorem filledOne {n m : β} (one : Filled uCount vCount given fallback k n)
    (other : Filled uCount vCount given fallback k m) : n = m := by
  cases one with
  | own held =>
    cases other with
    | own again => exact Option.some.inj (Option.some.inj (held.symm.trans again))
    | near missing => cases held.symm.trans missing
    | fallback missing => cases held.symm.trans missing
  | near missing inside held nearest =>
    cases other with
    | own again => cases missing.symm.trans again
    | near _ inside' held' nearest' =>
      cases nearerBoth (nearest _ inside' _ held') (nearest' _ inside _ held)
      exact Option.some.inj (Option.some.inj (held.symm.trans held'))
    | fallback _ blank => cases held.symm.trans (blank _ inside)
  | fallback missing blank =>
    cases other with
    | own again => cases missing.symm.trans again
    | near _ inside held => cases (blank _ inside).symm.trans held
    | fallback => rfl

theorem filledRead {n : β} (filled : Filled uCount vCount given fallback k n) : k < given.length := by
  obtain ⟨m, held⟩ : ∃ m, given[k]? = some m := by
    cases filled with
    | own held => exact ⟨_, held⟩
    | near missing => exact ⟨_, missing⟩
    | fallback missing => exact ⟨_, missing⟩
  exact (List.getElem?_eq_some_iff.mp held).1

theorem rowsAroundOrdered (row : Nat) : (rowsAround vCount row).Pairwise (Nearer row) := by
  have lower {d q : Nat} (mem : q ∈ (if d ≤ row then [row - d] else []) ++ [row + d]) :
      row.dist q = d ∧ (q + d = row ∨ q = row + d) := by
    split at mem <;> simp only [List.cons_append, List.nil_append, List.mem_cons, List.not_mem_nil,
      or_false] at mem <;> unfold Nat.dist <;> omega
  rw [rowsAround, List.pairwise_flatMap]
  constructor
  · intro d _
    split
    · rw [List.singleton_append, List.pairwise_pair]
      exact .inr ⟨by unfold Nat.dist; omega, by omega⟩
    · exact List.pairwise_singleton ..
  · refine (List.pairwise_lt_range' 1).imp ?_
    intro d e less r first q second
    exact .inl (by rw [(lower first).1, (lower second).1]; exact less)

theorem rowsAroundAll {row other : Nat} (low : row < vCount) (inside : other < vCount)
    (apart : other ≠ row) : other ∈ rowsAround vCount row := by
  rw [rowsAround, List.mem_flatMap]
  refine ⟨row.dist other, List.mem_range'_1.mpr (by unfold Nat.dist; omega), ?_⟩
  rw [List.mem_append, List.mem_singleton]
  rcases Nat.lt_or_gt_of_ne apart with below | above
  · have reaches : row.dist other ≤ row := by unfold Nat.dist; omega
    rw [if_pos reaches, List.mem_singleton]
    exact .inl (by unfold Nat.dist; omega)
  · exact .inr (by unfold Nat.dist; omega)

def columnNearest? (uCount vCount : Nat) (given : List (Option β)) (k : Nat) : Option β :=
  (rowsAround vCount (k / uCount)).findSome? fun row =>
    if row < vCount then (columnAt uCount given k row).join else none

theorem nearestColumn (wide : 0 < uCount) (sized : given.length = uCount * vCount) :
    nearest? uCount vCount given.toArray wide sized k = columnNearest? uCount vCount given k := by
  refine congrArg ((rowsAround vCount (k / uCount)).findSome? ·) (funext fun row => ?_)
  split
  · rename_i inside
    rw [columnAt, List.getElem?_eq_getElem (sized ▸ inColumn wide inside), Option.join_some]
    exact List.getElem_toArray ..
  · rfl

theorem searchInside (sized : given.length = uCount * vCount) (wide : 0 < uCount) :
    ((rowsAround vCount (k / uCount)).findSomeM? fun row =>
      if row < vCount then columnAt uCount given k row else some none) =
        some (columnNearest? uCount vCount given k) := by
  have reads : (fun row => if row < vCount then columnAt uCount given k row else some none) =
      fun row => pure (if row < vCount then (columnAt uCount given k row).join else none) := by
    funext row
    split
    · rename_i inside
      obtain ⟨n, read⟩ := columnRead (k := k) sized wide inside
      rw [read, Option.join_some]
      rfl
    · rfl
  rw [reads, List.findSomeM?_pure]
  rfl

theorem nearestFilled (sized : given.length = uCount * vCount) (wide : 0 < uCount)
    (missing : given[k]? = some none) :
    Filled uCount vCount given fallback k ((columnNearest? uCount vCount given k).getD fallback) := by
  have place := (List.getElem?_eq_some_iff.mp missing).1
  have low : k / uCount < vCount := Nat.div_lt_of_lt_mul (sized ▸ place)
  have elsewhere {row : Nat} {m : β} (held : columnAt uCount given k row = some (some m)) :
      row ≠ k / uCount := by
    rintro rfl
    cases (columnOwn.symm.trans held).symm.trans missing
  cases search : columnNearest? uCount vCount given k with
  | none =>
    refine .fallback missing fun row inside => ?_
    obtain ⟨n, read⟩ := columnRead (k := k) sized wide inside
    cases n with
    | none => exact read
    | some m =>
      have passed := List.findSome?_eq_none_iff.mp search row
        (rowsAroundAll low inside (elsewhere read))
      rw [if_pos inside, read] at passed
      cases passed
  | some n =>
    obtain ⟨before, row, after, rows, found, passed⟩ := List.findSome?_eq_some_iff.mp search
    split at found
    · rename_i inside
      refine .near missing inside (Option.join_eq_some_iff.mp found) fun other within m held => ?_
      have mem := rowsAroundAll low within (elsewhere held)
      have ordered : (rowsAround vCount (k / uCount)).Pairwise (Nearer (k / uCount)) := rowsAroundOrdered _
      rw [rows] at mem ordered
      rcases List.mem_append.mp mem with early | late
      · have skipped := passed other early
        rw [if_pos within, held] at skipped
        cases skipped
      · rcases List.mem_cons.mp late with rfl | later
        · exact .inr ⟨rfl, Nat.le_refl _⟩
        · exact (List.pairwise_cons.mp (List.pairwise_append.mp ordered).2.1).1 other later
    · cases found

theorem sampleFilled (sized : given.length = uCount * vCount) (wide : 0 < uCount) {own : Option β}
    (read : given[k]? = some own) :
    let n := own.getD ((columnNearest? uCount vCount given k).getD fallback)
    fillAt? uCount vCount given fallback k = some n ∧ Filled uCount vCount given fallback k n := by
  cases own with
  | some n => exact ⟨by rw [fillAt?, read]; rfl, .own read⟩
  | none =>
    refine ⟨?_, nearestFilled sized wide read⟩
    rw [fillAt?, read]
    simp only [Option.bind_eq_bind, Option.bind_some, if_neg (Nat.ne_of_gt wide),
      searchInside sized wide]
    rfl

/-- The fill reads no entry out of range, is the fill of the checked reads, and stores for each sample
what its column tells. -/
theorem normalsFilled (uCount vCount : Nat) (given : List (Option β)) (fallback : β)
    (sized : given.length = uCount * vCount) :
    ∃ filled, fill? uCount vCount given fallback = some filled ∧
      (∀ wide, fill uCount vCount given fallback wide sized = filled) ∧
      filled.length = uCount * vCount ∧
      ∀ k n, filled[k]? = some n ↔ Filled uCount vCount given fallback k n := by
  obtain rfl | wide := Nat.eq_zero_or_pos uCount
  · obtain rfl := List.eq_nil_of_length_eq_zero (sized.trans (Nat.zero_mul _))
    refine ⟨[], rfl, fun wide => absurd wide (Nat.lt_irrefl 0), sized, fun k n => ?_⟩
    constructor
    · rintro ⟨⟩
    · intro filled
      cases filledRead filled
  · let value (own : Option β) (k : Nat) : β :=
      own.getD ((columnNearest? uCount vCount given k).getD fallback)
    refine ⟨given.zipIdx.map fun g => value g.1 g.2, ?_, ?_, ?_, ?_⟩
    · have indices : List.range given.length = given.zipIdx.map (·.2) := by
        rw [List.zipIdx_map_snd, List.range_eq_range']
      rw [fill?, indices]
      refine Outcome.mapsAll _ fun g mem => ?_
      exact (sampleFilled sized wide (List.mem_zipIdx_iff_getElem?.mp mem)).1
    · intro wide
      simp only [fill, nearestColumn]
      rfl
    · rw [List.length_map, List.length_zipIdx, sized]
    · intro k n
      rw [List.getElem?_map, List.getElem?_zipIdx, Nat.zero_add]
      constructor
      · intro found
        cases read : given[k]? with
        | none => rw [read] at found; cases found
        | some own =>
          rw [read] at found
          exact Option.some.inj found ▸ (sampleFilled sized wide read).2
      · intro filled
        have read := List.getElem?_eq_getElem (filledRead filled)
        rw [read]
        exact congrArg some (filledOne (sampleFilled sized wide read).2 filled)

/-- Between two given rows the lower one is taken, and an empty column takes the fallback. -/
theorem normalsFilledBetween :
    let given := [some 1, none, none, none, some 2, none]
    given.length = 2 * 3 ∧ fill? 2 3 given 9 = some [1, 9, 1, 9, 2, 9] ∧
      Filled 2 3 given 9 2 1 ∧ Filled 2 3 given 9 5 9 := by
  obtain ⟨filled, checked, same, -, told⟩ :=
    normalsFilled 2 3 [some 1, none, none, none, some 2, none] 9 rfl
  obtain rfl : [1, 9, 1, 9, 2, 9] = filled := same (by decide)
  exact ⟨rfl, checked, (told 2 1).mp rfl, (told 5 9).mp rfl⟩

end SceneStream.Geometry.Grid
