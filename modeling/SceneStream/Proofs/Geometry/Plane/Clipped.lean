import SceneStream.Proofs.Geometry.Plane.Inside

/-! Rings that are clipped: ears are cut off one after the other until a triangle is left. The triangles of a filled ring
share nothing but their sides, and what is summed over edges that they have in common falls out. -/
namespace SceneStream.Geometry.Plane
variable {α β : Type} [Field α] [LinearOrder α]

/-- Members of a ring are at places of the plane, and three of them make a triangle. -/
inductive Clipped (f : β → α × α) : List β → List (β × β × β) → Prop
  | last {r : List β} {a b c : β} (turned : [a, b, c].IsRotated r) (left : 0 < turn (f a) (f b) (f c)) :
    Clipped f r [(a, b, c)]
  | ear {r s k : List β} {a b c d : β} {ts : List (β × β × β)} (turned : (a :: b :: c :: d :: k).IsRotated r)
    (ear : Ear (r.map f) (f a, f b, f c)) (kept : (c :: d :: k ++ [a]).IsRotated s) (rest : Clipped f s ts) :
    Clipped f r ((a, b, c) :: ts)

variable {f : β → α × α} {r : List β} {ts : List (β × β × β)}

theorem clippedLength (clipped : Clipped f r ts) : ts.length + 2 = r.length := by
  induction clipped with
  | last turned => simp [← turned.perm.length_eq]
  | ear turned ear kept rest ih =>
    have size := kept.perm.length_eq
    simp only [List.length_append, List.length_cons, List.length_nil] at size
    simp only [← turned.perm.length_eq, List.length_cons]
    omega

theorem clippedLeft (clipped : Clipped f r ts) : ∀ t ∈ ts, 0 < turn (f t.1) (f t.2.1) (f t.2.2) := by
  induction clipped with
  | last turned left => simpa using left
  | ear turned ear kept rest ih => exact List.forall_mem_cons.mpr ⟨ear.bulges, ih⟩

theorem clippedMembers (clipped : Clipped f r ts) : ∀ t ∈ ts, t.1 ∈ r ∧ t.2.1 ∈ r ∧ t.2.2 ∈ r := by
  induction clipped with
  | last turned => simp [← turned.mem_iff]
  | ear turned ear kept rest ih =>
    refine List.forall_mem_cons.mpr ⟨by simp [← turned.mem_iff], fun t mem => ?_⟩
    have inside := ih t mem
    simp only [← turned.mem_iff, ← kept.mem_iff] at inside ⊢
    grind

theorem clippedSum {γ : Type} [AddCommGroup γ] (φ : β × β → γ) (turns : ∀ x y, φ (y, x) = -φ (x, y))
    (clipped : Clipped f r ts) :
    ((edges r).map φ).sum = (ts.map fun t => ((edges [t.1, t.2.1, t.2.2]).map φ).sum).sum := by
  induction clipped with
  | last turned => simp [((edgesTurned turned).map φ).sum_eq]
  | ear turned ear kept rest ih =>
    obtain ⟨d, d', cut, -⟩ := tipCut turned (List.cons_ne_nil _ _)
    rw [cutSum cut φ (turns _ _), ((edgesTurned kept).map φ).sum_eq, ih, List.map_cons, List.sum_cons]

variable [IsStrictOrderedRing α]

theorem clippedTurning (clipped : Clipped f r ts) (w : α × α) :
    turning (r.map f) w = (ts.map fun t => turning [f t.1, f t.2.1, f t.2.2] w).sum := by
  have parts := clippedSum (fun e => crossing w (f e.1) (f e.2)) (fun x y => crossingReversed w (f x) (f y)) clipped
  rw [turning, edgesMap, List.map_map]
  exact parts

theorem earFilled {k : List β} {a b c d : β} (turned : (a :: b :: c :: d :: k).IsRotated r)
    (ear : Ear (r.map f) (f a, f b, f c)) (filled : Filled (r.map f)) :
    Filled [f a, f b, f c] ∧ Filled ((c :: d :: k ++ [a]).map f) := by
  obtain ⟨x, y, cut, diagonal⟩ := earDiagonal filled.toWoven ear (turned.map f) (List.cons_ne_nil _ _)
  refine ⟨cutFilled cut filled diagonal, ?_⟩
  simpa using cutFilled (cutTurned cut) filled (diagonalTurned diagonal)

theorem stayPositive (l : List (α × α)) (positive : ∀ x ∈ l, 0 < x.1) :
    ∃ u, 0 < u ∧ ∀ s, 0 < s → s < u → ∀ x ∈ l, 0 < x.1 + s * x.2 := by
  induction l with
  | nil => exact ⟨1, one_pos, by simp⟩
  | cons x l ih =>
    rw [List.forall_mem_cons] at positive
    obtain ⟨u, u0, kept⟩ := ih positive.2
    have slope : 0 < |x.2| + 1 := by positivity
    refine ⟨min u (x.1 / (|x.2| + 1)), lt_min u0 (div_pos positive.1 slope), fun s s0 short => ?_⟩
    rw [lt_min_iff, lt_div_iff₀ slope] at short
    refine List.forall_mem_cons.mpr ⟨?_, kept s s0 short.1⟩
    nlinarith [neg_abs_le x.2]

theorem innerMoved {a b c a' b' c' v : α × α} (first : Inner a b c v) (second : Inner a' b' c' v) (d : α × α)
    (l : List (α × α)) (slopes : ∀ x ∈ l, x.2 ≠ 0) : ∃ s, Inner a b c (v.1 + s * d.1, v.2 + s * d.2) ∧
      Inner a' b' c' (v.1 + s * d.1, v.2 + s * d.2) ∧ ∀ x ∈ l, x.1 + s * x.2 ≠ 0 := by
  let slope (p q : α × α) : α := (q.1 - p.1) * d.2 - (q.2 - p.2) * d.1
  have moved (p q : α × α) (s : α) : turn p q (v.1 + s * d.1, v.2 + s * d.2) = turn p q v + s * slope p q := by
    simp only [turn, slope]
    ring
  obtain ⟨u, u0, kept⟩ := stayPositive [(turn a b v, slope a b), (turn b c v, slope b c), (turn c a v, slope c a),
    (turn a' b' v, slope a' b'), (turn b' c' v, slope b' c'), (turn c' a' v, slope c' a')] (by
      simpa using ⟨first.1, first.2.1, first.2.2, second⟩)
  obtain ⟨s, ⟨s0, short⟩, new⟩ := (Set.Ioo_infinite u0).exists_notMem_finset (l.map fun x => -x.1 / x.2).toFinset
  have inner := kept s s0 short
  simp only [List.forall_mem_cons, List.not_mem_nil, false_imp_iff, implies_true, and_true, ← moved] at inner
  obtain ⟨ab, bc, ca, rest⟩ := inner
  refine ⟨s, ⟨ab, bc, ca⟩, rest, fun x mem zero => new ?_⟩
  refine List.mem_toFinset.mpr (List.mem_map.mpr ⟨x, mem, ?_⟩)
  rw [div_eq_iff (slopes x mem)]
  linear_combination -zero

theorem innerLevel {a b c a' b' c' v : α × α} (first : Inner a b c v) (second : Inner a' b' c' v)
    (l : List (α × α)) : ∃ w, Inner a b c w ∧ Inner a' b' c' w ∧ ∀ p ∈ l, w.2 ≠ p.2 := by
  -- What is inside of two triangles is so at a height of its own.
  obtain ⟨s, one, two, new⟩ := innerMoved first second (0, 1) (l.map fun p => (v.2 - p.2, 1))
    (List.forall_mem_map.mpr fun _ _ => one_ne_zero)
  refine ⟨_, one, two, fun p mem same => new _ (List.mem_map_of_mem mem) ?_⟩
  dsimp only at same ⊢
  linear_combination same

theorem innerTurning {a b c v : α × α} {r : List (α × α)} (filled : Filled r) (ear : Ear r (a, b, c))
    (inner : Inner a b c v) (level : ∀ p ∈ r, v.2 ≠ p.2) : turning r v = 1 := by
  have new : v ∉ r := fun mem => level v mem rfl
  have apart : Level (v :: r) := by
    refine List.forall_mem_cons.mpr ⟨List.forall_mem_cons.mpr ⟨fun _ => rfl, fun p mem same => absurd same (level p mem)⟩,
      fun p mem => List.forall_mem_cons.mpr ⟨fun same => absurd same.symm (level p mem), filled.level p mem⟩⟩
  rw [← windingTurning new (toward v v true)]
  exact innerWinding filled ear apart inner _

theorem clippedOnce (clipped : Clipped f r ts) {w : α × α} (level : ∀ p ∈ r.map f, w.2 ≠ p.2) {t} (mem : t ∈ ts) :
    TurnsOnce (f t.1) (f t.2.1) (f t.2.2) w (turning [f t.1, f t.2.1, f t.2.2] w) := by
  rw [List.forall_mem_map] at level
  obtain ⟨x, y, z⟩ := clippedMembers clipped t mem
  exact triangleTurning (clippedLeft clipped t mem) ⟨level _ x, level _ y, level _ z⟩

theorem clippedWinds (clipped : Clipped f r ts) {w : α × α} (level : ∀ p ∈ r.map f, w.2 ≠ p.2) {t} (mem : t ∈ ts)
    (inner : Inner (f t.1) (f t.2.1) (f t.2.2) w) : 1 ≤ turning (r.map f) w := by
  rw [clippedTurning clipped, ← (clippedOnce clipped level mem).inner inner]
  exact List.single_le_sum (List.forall_mem_map.mpr fun u mem => onceForward (clippedOnce clipped level mem)) _
    (List.mem_map_of_mem mem)

/-- No point is inside of two triangles. -/
theorem clippedApart (clipped : Clipped f r ts) (filled : Filled (r.map f)) : ts.Pairwise fun t u =>
    ∀ v, ¬(Inner (f t.1) (f t.2.1) (f t.2.2) v ∧ Inner (f u.1) (f u.2.1) (f u.2.2) v) := by
  induction clipped with
  | last turned => exact List.pairwise_singleton ..
  | @ear r s k a b c d ts turned ear kept rest ih =>
    obtain ⟨triangle, left⟩ := earFilled turned ear filled
    have remains := filledTurned (kept.map f).symm left
    refine List.pairwise_cons.mpr ⟨fun u mem v ⟨first, second⟩ => ?_, ih remains⟩
    obtain ⟨w, first, second, level⟩ := innerLevel first second (r.map f)
    have fewer : s ⊆ r := fun p mem => by
      rw [← kept.mem_iff] at mem
      rw [← turned.mem_iff]
      grind
    -- The ring winds once about `w`, but the triangle and what is left of the ring both do.
    have more := clippedWinds rest (fun p mem => level p (List.map_subset f fewer mem)) mem second
    have whole := Clipped.ear turned ear kept rest
    have sum := clippedTurning whole w
    rw [innerTurning filled ear first level, List.map_cons, List.sum_cons, ← clippedTurning rest,
      (clippedOnce whole level (List.mem_cons_self ..)).inner first] at sum
    omega

end SceneStream.Geometry.Plane
