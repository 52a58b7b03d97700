import Mathlib.Data.Multiset.MapFold
import SceneStream.Surface

/-! What the index layout of a grid changes. Lists halve every cell along one diagonal, strips along
the other, with the same winding around every cell. -/
namespace SceneStream.Geometry

namespace Triangle

def turn (t : Triangle) : Triangle := ⟨t.b, t.c, t.a⟩

/-- Alike whichever corner is named first, but not when wound the other way. -/
instance alike : Setoid Triangle where
  r s t := t = s ∨ t = s.turn ∨ t = s.turn.turn
  iseqv := by
    refine ⟨fun _ => .inl rfl, ?_, ?_⟩
    · rintro s t (rfl | rfl | rfl)
      · exact .inl rfl
      · exact .inr (.inr rfl)
      · exact .inr (.inl rfl)
    · rintro s t w (rfl | rfl | rfl) (rfl | rfl | rfl)
      all_goals first
        | exact .inl rfl
        | exact .inr (.inl rfl)
        | exact .inr (.inr rfl)

def edges (t : Triangle) : List (Nat × Nat) := [(t.a, t.b), (t.b, t.c), (t.c, t.a)]

end Triangle

/-- Four neighbouring samples, two of one row and above them two of the next. -/
structure Cell where
  near : Nat
  nearNext : Nat
  far : Nat
  farNext : Nat

namespace Cell

def listed (c : Cell) : List Triangle :=
  [⟨c.near, c.nearNext, c.far⟩, ⟨c.far, c.nearNext, c.farNext⟩]

def stripped (c : Cell) : List Triangle :=
  [⟨c.far, c.near, c.farNext⟩, ⟨c.farNext, c.near, c.nearNext⟩]

def outline (c : Cell) : List (Nat × Nat) :=
  [(c.near, c.nearNext), (c.nearNext, c.farNext), (c.farNext, c.far), (c.far, c.near)]

def bothWays (a b : Nat) : List (Nat × Nat) := [(a, b), (b, a)]

theorem listedEdges (c : Cell) :
    (c.listed.flatMap Triangle.edges).Perm (c.outline ++ bothWays c.nearNext c.far) := by
  simp only [listed, outline, bothWays, Triangle.edges, List.flatMap_cons, List.flatMap_nil,
    List.cons_append, List.nil_append]
  grind

theorem strippedEdges (c : Cell) :
    (c.stripped.flatMap Triangle.edges).Perm (c.outline ++ bothWays c.near c.farNext) := by
  simp only [stripped, outline, bothWays, Triangle.edges, List.flatMap_cons, List.flatMap_nil,
    List.cons_append, List.nil_append]
  grind

end Cell

namespace Grid

def cell (uCount j i : Nat) : Cell :=
  let k := j * uCount + i
  ⟨k, k + 1, k + uCount, k + uCount + 1⟩

def cells (uCount vCount : Nat) : List Cell :=
  (List.range (vCount - 1)).flatMap fun j => (List.range (uCount - 1)).map (cell uCount j)

theorem trianglesOfCells (uCount vCount : Nat) :
    triangles uCount vCount = (cells uCount vCount).flatMap Cell.listed := by
  simp only [triangles, cells, List.flatMap_assoc, List.flatMap_map]
  rfl

theorem cellsEmpty (uCount vCount : Nat) :
    cells uCount vCount = [] ↔ uCount < 2 ∨ vCount < 2 := by
  simp only [cells, List.flatMap_eq_nil_iff, List.map_eq_nil_iff, List.mem_range,
    List.range_eq_nil]
  constructor
  · intro none
    by_contra both
    exact absurd (none 0 (by omega)) (by omega)
  · intro small j inside
    omega

end Grid
end SceneStream.Geometry

namespace SceneStream.Surface
open SceneStream.Geometry

/-- The triangles without the order they are listed in. -/
def mesh (s : Surface) : Multiset (Quotient Triangle.alike) :=
  Multiset.map (Quotient.mk _) (s.triangles : Multiset Triangle)

theorem groupedBack (ts : List Triangle) : grouped (ts.flatMap Triangle.toList) = ts := by
  induction ts with
  | nil => rfl
  | cons t ts ih =>
    simp only [List.flatMap_cons, Triangle.toList, List.cons_append, List.nil_append, grouped, ih]

theorem unrolledAllBack (strips : List (List Nat)) :
    unrolledAll (strips.map List.length) strips.flatten = strips.flatMap (unrolled false) := by
  induction strips with
  | nil => rfl
  | cons strip strips ih => simp [unrolledAll, ih]

theorem unrolledRow (uCount j i n : Nat) :
    unrolled false ((List.range' i (n + 1)).flatMap fun i =>
      [(j + 1) * uCount + i, j * uCount + i]) =
    (List.range' i n).flatMap fun i => (Grid.cell uCount j i).stripped := by
  -- A strip adds two samples at a time, so that it is never turned where a cell begins.
  induction n generalizing i with
  | zero => simp [unrolled]
  | succ n ih =>
    have rest := ih (i + 1)
    rw [List.range'_succ] at rest
    rw [List.range'_succ, List.range'_succ, List.range'_succ]
    simp only [List.flatMap_cons, List.cons_append, List.nil_append, unrolled, Bool.not_false,
      Bool.not_true, if_true, Bool.false_eq_true, if_false] at rest ⊢
    rw [rest]
    simp only [Grid.cell, Cell.stripped, List.cons_append, List.nil_append, List.cons.injEq,
      Triangle.mk.injEq, Nat.add_mul, Nat.one_mul, true_and, and_true]
    omega

theorem unrolledStrip (uCount j : Nat) :
    unrolled false (Grid.strip uCount j) =
      (List.range (uCount - 1)).flatMap fun i => (Grid.cell uCount j i).stripped := by
  cases uCount with
  | zero => rfl
  | succ n =>
    rw [Grid.strip, List.range_eq_range', List.range_eq_range', unrolledRow]
    rfl

theorem listedTriangles (primitive : RequestKind) (g : Grid Float) :
    (ofGrid primitive .triangles g).triangles =
      (Grid.cells g.uCount g.vCount).flatMap Cell.listed := by
  rw [← Grid.trianglesOfCells]
  exact groupedBack _

theorem strippedTriangles (primitive : RequestKind) (g : Grid Float) :
    (ofGrid primitive .strips g).triangles =
      (Grid.cells g.uCount g.vCount).flatMap Cell.stripped := by
  have unrolled : (ofGrid primitive .strips g).triangles =
      (Grid.strips g.uCount g.vCount).flatMap (unrolled false) := unrolledAllBack _
  rw [unrolled, Grid.strips]
  split
  case isTrue narrow => rw [(Grid.cellsEmpty _ _).mpr (.inl narrow)]; rfl
  case isFalse =>
    simp only [Grid.cells, List.flatMap_map, List.flatMap_assoc, unrolledStrip]

theorem firstNotStripped {uCount vCount : Nat} (wide : 2 ≤ uCount) {t : Triangle}
    (mem : t ∈ (Grid.cells uCount vCount).flatMap Cell.stripped) :
    ¬ Triangle.alike t ⟨0, 1, uCount⟩ := by
  -- The first triangle of a list would need three corners of a cell that a strip never joins.
  simp only [Grid.cells, List.mem_flatMap, List.mem_map] at mem
  obtain ⟨_, ⟨j, -, i, -, rfl⟩, mem⟩ := mem
  simp only [Cell.stripped, Grid.cell, List.mem_cons, List.not_mem_nil, or_false] at mem
  generalize j * uCount + i = k at mem
  rintro (same | same | same)
  all_goals
    rcases mem with rfl | rfl <;> simp only [Triangle.turn, Triangle.mk.injEq] at same <;> omega

theorem meshesDiffer (primitive : RequestKind) (g : Grid Float)
    (wide : 2 ≤ g.uCount) (tall : 2 ≤ g.vCount) :
    (ofGrid primitive .strips g).mesh ≠ (ofGrid primitive .triangles g).mesh := by
  intro same
  have listed : (⟨0, 1, g.uCount⟩ : Triangle) ∈ (ofGrid primitive .triangles g).triangles := by
    rw [listedTriangles]
    simp only [Grid.cells, List.mem_flatMap, List.mem_map, List.mem_range]
    refine ⟨_, ⟨0, by omega, 0, by omega, rfl⟩, ?_⟩
    simp [Cell.listed, Grid.cell]
  have found : Quotient.mk _ ⟨0, 1, g.uCount⟩ ∈ (ofGrid primitive .strips g).mesh := by
    rw [same]
    exact Multiset.mem_map_of_mem _ listed
  obtain ⟨t, mem, alike⟩ := Multiset.mem_map.mp found
  rw [Multiset.mem_coe, strippedTriangles] at mem
  exact firstNotStripped wide mem (Quotient.exact alike)

/-- The same samples and the same outline of every cell, but the diagonals change, and with them the
mesh. -/
theorem layoutsTurnDiagonals (primitive : RequestKind) (g : Grid Float) :
    let listed := ofGrid primitive .triangles g
    let stripped := ofGrid primitive .strips g
    let cells := Grid.cells g.uCount g.vCount
    stripped = { listed with topology := stripped.topology, indices := stripped.indices } ∧
    listed.triangles = cells.flatMap Cell.listed ∧
    stripped.triangles = cells.flatMap Cell.stripped ∧
    (∀ c ∈ cells,
      (c.listed.flatMap Triangle.edges).Perm (c.outline ++ Cell.bothWays c.nearNext c.far) ∧
      (c.stripped.flatMap Triangle.edges).Perm (c.outline ++ Cell.bothWays c.near c.farNext)) ∧
    (stripped.mesh = listed.mesh ↔ g.uCount < 2 ∨ g.vCount < 2) := by
  intro listed stripped cells
  refine ⟨rfl, listedTriangles .., strippedTriangles ..,
    fun c _ => ⟨c.listedEdges, c.strippedEdges⟩, ?_, ?_⟩
  · intro same
    by_contra large
    exact meshesDiffer primitive g (by omega) (by omega) same
  · intro small
    have none : Grid.cells g.uCount g.vCount = [] := (Grid.cellsEmpty _ _).mpr small
    simp only [listed, stripped, mesh, listedTriangles, strippedTriangles, none]
    rfl

def unitCell : Grid Float := Grid.sample 1 1 (fun u v => (⟨u, v, 0⟩, none)) ⟨0, 0, 1⟩

theorem unitCellChangesMesh :
    2 ≤ unitCell.uCount ∧ 2 ≤ unitCell.vCount ∧
    (ofGrid .patch .triangles unitCell).triangles = [⟨0, 1, 2⟩, ⟨2, 1, 3⟩] ∧
    (ofGrid .patch .strips unitCell).triangles = [⟨2, 0, 3⟩, ⟨3, 0, 1⟩] ∧
    (ofGrid .patch .strips unitCell).mesh ≠ (ofGrid .patch .triangles unitCell).mesh :=
  ⟨Nat.le_refl 2, Nat.le_refl 2, rfl, rfl,
    meshesDiffer .patch unitCell (Nat.le_refl 2) (Nat.le_refl 2)⟩

end SceneStream.Surface
