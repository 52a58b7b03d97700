import SceneStream.Proofs.Geometry.Plane.Sweep

/-! Corners of a ring, each the sector from the way on round to the way back. The winding next to a vertex is the same in
all places that lie in no corner, and more by one in each corner. -/
namespace SceneStream.Geometry.Plane

section Sector
variable {α : Type} [LinearOrder α] {c t a c' a' : Bool ×ₗ α} {g : Germ α}

/-- Whether a turn to the left that begins at `c` comes by `t` before it ends at `a`. -/
def Within (c t a : Bool ×ₗ α) : Prop := if c < a then c < t ∧ t < a else c < t ∨ t < a

def Germ.In (g : Germ α) (c a : Bool ×ₗ α) : Prop := if c < a then g.Past c ∧ ¬g.Past a else g.Past c ∨ ¬g.Past a

theorem pastEarlier (order : c ≤ a) (past : g.Past a) : g.Past c := by
  rcases past with before | ⟨left, rfl⟩
  · exact Or.inl (order.trans_lt before)
  · exact (lt_or_eq_of_le order).imp id fun eq => ⟨left, eq⟩

theorem pastOrder (past : g.Past a) (before : ¬g.Past c) : a < c :=
  lt_of_not_ge fun order => before (pastEarlier order past)

theorem markSector (differ : c ≠ a) :
    mark (g.Past c) - mark (g.Past a) = mark (g.In c a) - mark (a < c) := by
  unfold Germ.In
  rcases lt_or_gt_of_ne differ with order | order
  · have earlier := pastEarlier (g := g) order.le
    rw [if_pos order, markFalse order.not_gt]
    by_cases past : g.Past a <;> by_cases begun : g.Past c <;> simp_all [mark]
  · have earlier := pastEarlier (g := g) order.le
    rw [if_neg order.not_gt, markTrue order]
    by_cases past : g.Past a <;> by_cases begun : g.Past c <;> simp_all [mark]

theorem sectorsApart (inside : g.In c a) (other : g.In c' a') (differ : c ≠ c') (before : ¬Within c c' a)
    (after : ¬Within c' c a') : False := by
  unfold Germ.In at inside other
  unfold Within at before after
  grind [pastOrder]

end Sector

section Order
variable {α : Type} [Field α] [LinearOrder α] {r : List (α × α)} {z : α × α}

/-- The winding in places next to `z` that lie in no corner. -/
noncomputable def depth (r : List (α × α)) (z : α × α) : ℤ :=
  ((edges r).map fun e => if e.1 = z ∨ e.2 = z then 0 else crossing z e.1 e.2).sum -
    ((triples r).map fun t => mark (t.2.1 = z ∧ angle z t.1 < angle z t.2.2)).sum

def Holds (z : α × α) (g : Germ α) (t : (α × α) × (α × α) × (α × α)) : Prop :=
  t.2.1 = z ∧ g.In (angle z t.2.2) (angle z t.1)

theorem passesParts (g : Germ α) {e : (α × α) × (α × α)} (proper : e.1 ≠ e.2) :
    passes z g e.1 e.2 + (if e.2 = z then mark (g.Past (angle z e.1)) else 0) =
      (if e.1 = z ∨ e.2 = z then 0 else crossing z e.1 e.2) +
        if e.1 = z then mark (g.Past (angle z e.2)) else 0 := by
  unfold passes
  by_cases first : e.1 = z
  · have second : e.2 ≠ z := fun eq => proper (first.trans eq.symm)
    simp [first, second]
  · by_cases second : e.2 = z <;> simp [first, second]

theorem windingDepth (proper : ∀ e ∈ edges r, e.1 ≠ e.2)
    (apart : ∀ t ∈ triples r, angle t.2.1 t.2.2 ≠ angle t.2.1 t.1) (g : Germ α) :
    winding r z g = depth r z + ((triples r).map fun t => mark (Holds z g t)).sum := by
  have parts := congrArg List.sum (List.map_congr_left fun e mem => passesParts (z := z) g (proper e mem))
  have corners : ∀ t ∈ triples r,
      (if t.2.1 = z then mark (g.Past (angle z t.2.2)) else 0) + mark (t.2.1 = z ∧ angle z t.1 < angle z t.2.2) =
        (if t.2.1 = z then mark (g.Past (angle z t.1)) else 0) + mark (Holds z g t) := by
    intro t mem
    by_cases here : t.2.1 = z
    · subst here
      have sector := markSector (g := g) (apart t mem)
      simp only [Holds, true_and, if_true]
      linarith
    · rw [if_neg here, if_neg here, markFalse fun h => here h.1, markFalse fun h => here h.1]
  have total := congrArg List.sum (List.map_congr_left corners)
  have after : ((triples r).map fun t => if t.2.1 = z then mark (g.Past (angle z t.2.2)) else 0).sum =
      ((edges r).map fun e => if e.1 = z then mark (g.Past (angle z e.2)) else 0).sum := by
    rw [← triplesAfter, List.map_map]
    rfl
  have before : ((triples r).map fun t => if t.2.1 = z then mark (g.Past (angle z t.1)) else 0).sum =
      ((edges r).map fun e => if e.2 = z then mark (g.Past (angle z e.1)) else 0).sum := by
    have turned := triplesBefore r
    rw [edgesRotate] at turned
    rw [← ((List.rotate_perm (edges r) (r.length - 1)).map _).sum_eq, ← turned, List.map_map]
    rfl
  rw [List.sum_map_add, List.sum_map_add, before, after] at total
  rw [List.sum_map_add, List.sum_map_add] at parts
  unfold winding depth
  linarith

end Order

end SceneStream.Geometry.Plane
