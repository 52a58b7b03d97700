import SceneStream.Proofs.Geometry.Plane.Cut

/-! What lies in the triangle of a corner. An edge that comes into the triangle through neither of the two sides that are
edges themselves has a vertex there. -/
namespace SceneStream.Geometry.Plane
variable {α : Type} [Field α] [LinearOrder α] [IsStrictOrderedRing α] {a b c p q w y : α × α}

def InTriangle (a b c p : α × α) : Prop := 0 ≤ turn a b p ∧ 0 ≤ turn b c p ∧ 0 ≤ turn c a p

theorem angleLess (offP : p.2 ≠ b.2) (offQ : q.2 ≠ b.2) :
    angle b p < angle b q ↔ (b.2 < p.2 ∧ q.2 < b.2) ∨ ((p.2 < b.2 ↔ q.2 < b.2) ∧ 0 < turn b p q) := by
  by_cases sides : p.2 < b.2 ↔ q.2 < b.2
  · rw [angleSame sides offP offQ, and_iff_right sides, or_iff_right]
    exact fun across => across.1.not_gt (sides.mpr across.2)
  · rw [or_iff_left fun h => sides h.1]
    refine ⟨fun less => ?_, fun across => angleAcross across.1 across.2⟩
    by_contra none
    refine less.not_gt (angleAcross ?_ ?_) <;> grind

theorem withinBulge (left : 0 < turn a b c) (offA : a.2 ≠ b.2) (offC : c.2 ≠ b.2) (offY : y.2 ≠ b.2) :
    Within (angle b c) (angle b y) (angle b a) ↔ 0 < turn a b y ∧ 0 < turn b c y := by
  have height : turn a b c * (y.2 - b.2) = turn a b y * (c.2 - b.2) + turn b c y * (a.2 - b.2) := by
    unfold turn
    ring
  have turned : turn b c a = turn a b c := (turnRotate ..).symm
  have turned' : turn b y a = turn a b y := (turnRotate ..).symm
  have parts : Within (angle b c) (angle b y) (angle b a) ↔
      (angle b c < angle b a ∧ angle b c < angle b y ∧ angle b y < angle b a) ∨
        (¬angle b c < angle b a ∧ (angle b c < angle b y ∨ angle b y < angle b a)) := by
    unfold Within
    split <;> simp [*]
  rw [parts, angleLess offC offA, angleLess offC offY, angleLess offY offA, turned, turned']
  -- of the three products of the equation, the signs of two tell that of the third
  have up {d : α} (more : b.2 < d) : 0 < d - b.2 := sub_pos.mpr more
  have down {d : α} (less : d < b.2) : 0 < b.2 - d := sub_pos.mpr less
  rcases lt_or_gt_of_ne offA with a0 | a0 <;> rcases lt_or_gt_of_ne offC with c0 | c0 <;>
    rcases lt_or_gt_of_ne offY with y0 | y0 <;>
    simp only [a0, c0, y0, a0.not_gt, c0.not_gt, y0.not_gt, left, true_and, false_and, and_true, and_false, true_or,
      or_true, false_or, or_false, iff_true, and_self, iff_false, false_iff, not_true, not_false_iff]
  · exact and_comm
  · rintro ⟨m, n⟩
    linarith [mul_pos left (up y0), mul_pos m (down c0), mul_pos n (down a0)]
  · refine ⟨fun m => ⟨m, ?_⟩, And.left⟩
    by_contra n
    linarith [mul_pos left (down y0), mul_pos m (up c0), mul_nonneg (neg_nonneg.mpr (not_lt.mp n)) (down a0).le]
  · refine ⟨fun n => ⟨?_, n⟩, And.right⟩
    by_contra m
    linarith [mul_pos left (up y0), mul_pos n (down a0), mul_nonneg (neg_nonneg.mpr (not_lt.mp m)) (up c0).le]
  · refine ⟨fun n => ⟨?_, n⟩, And.right⟩
    by_contra m
    linarith [mul_pos left (down y0), mul_pos n (up a0), mul_nonneg (neg_nonneg.mpr (not_lt.mp m)) (down c0).le]
  · refine ⟨fun m => ⟨m, ?_⟩, And.left⟩
    by_contra n
    linarith [mul_pos left (up y0), mul_pos m (down c0), mul_nonneg (neg_nonneg.mpr (not_lt.mp n)) (up a0).le]
  · rintro ⟨m, n⟩
    linarith [mul_pos left (down y0), mul_pos m (up c0), mul_pos n (up a0)]
  · exact and_comm

omit [LinearOrder α] [IsStrictOrderedRing α] in
theorem weightsSum (a b c w : α × α) : turn a b w + turn b c w + turn c a w = turn a b c := by
  unfold turn
  ring

theorem sideMem (left : 0 < turn a b c) (on : turn a b w = 0) (before : 0 ≤ turn b c w) (after : 0 ≤ turn c a w) :
    w ∈ segment α a b := by
  have sum := weightsSum a b c w
  have whole := left.ne'
  refine onSegment.mpr ⟨turn c a w / turn a b c, div_nonneg after left.le, (div_le_one left).mpr (by linarith), ?_⟩
  refine Prod.ext ?_ ?_ <;> field_simp <;> unfold turn at *
  · linear_combination (c.1 - a.1) * on
  · linear_combination (c.2 - a.2) * on

theorem exitAt {f u : α} (start : 0 ≤ f) (out : u < 0) :
    ∃ s, 0 ≤ s ∧ s ≤ 1 ∧ f + s * (u - f) = 0 ∧ ∀ t ≤ s, 0 ≤ f + t * (u - f) := by
  have fall : 0 < f - u := by linarith
  have zero : f + f / (f - u) * (u - f) = 0 := by
    have := fall.ne'
    field_simp
    ring
  refine ⟨f / (f - u), div_nonneg start fall.le, (div_le_one fall).mpr (by linarith), zero, fun t less => ?_⟩
  nlinarith [mul_le_mul_of_nonneg_right less fall.le]

theorem firstExit {f g u v : α} (f0 : 0 ≤ f) (g0 : 0 ≤ g) (out : u < 0 ∨ v < 0) :
    ∃ s, 0 ≤ s ∧ s ≤ 1 ∧ (u < 0 ∧ f + s * (u - f) = 0 ∧ 0 ≤ g + s * (v - g) ∨
      v < 0 ∧ g + s * (v - g) = 0 ∧ 0 ≤ f + s * (u - f)) := by
  have kept {h x s : α} (h0 : 0 ≤ h) (x0 : 0 ≤ x) (low : 0 ≤ s) (high : s ≤ 1) : 0 ≤ h + s * (x - h) := by
    nlinarith [mul_nonneg low x0, mul_nonneg (sub_nonneg.mpr high) h0]
  rcases lt_or_ge u 0 with u0 | u0
  · obtain ⟨s, low, high, zero, early⟩ := exitAt f0 u0
    rcases lt_or_ge v 0 with v0 | v0
    · obtain ⟨t, low', high', zero', early'⟩ := exitAt g0 v0
      rcases le_total s t with order | order
      · exact ⟨s, low, high, Or.inl ⟨u0, zero, early' s order⟩⟩
      · exact ⟨t, low', high', Or.inr ⟨v0, zero', early t order⟩⟩
    · exact ⟨s, low, high, Or.inl ⟨u0, zero, kept g0 v0 low high⟩⟩
  · have v0 := out.resolve_left u0.not_gt
    obtain ⟨t, low, high, zero, early⟩ := exitAt g0 v0
    exact ⟨t, low, high, Or.inr ⟨v0, zero, kept f0 u0 low high⟩⟩

theorem backAt {s : α} (differ : p ≠ q) (on : w ∈ segment α q p) (low : 0 ≤ s)
    (back : (w.1 + s * (p.1 - w.1), w.2 + s * (p.2 - w.2)) = q) : w = q := by
  obtain ⟨u, u0, u1, rfl⟩ := onSegment.mp on
  have sum : u + s * (1 - u) = 0 := by
    have x : (u + s * (1 - u)) * (p.1 - q.1) = 0 := by linear_combination congrArg Prod.fst back
    have y : (u + s * (1 - u)) * (p.2 - q.2) = 0 := by linear_combination congrArg Prod.snd back
    by_contra nonzero
    exact differ (Prod.ext (sub_eq_zero.mp ((mul_eq_zero.mp x).resolve_left nonzero))
      (sub_eq_zero.mp ((mul_eq_zero.mp y).resolve_left nonzero)))
  have zero : u = 0 := le_antisymm (by nlinarith [mul_nonneg low (sub_nonneg.mpr u1)]) u0
  simp [zero]

omit [IsStrictOrderedRing α] in
theorem exitSide {d e x : α × α} (sides : (p, q) = (d, e) ∨ (p, q) = (e, d) ∨ Apart d e p q) (out : turn d e p < 0)
    (zero : turn d e x = 0) (on : x ∈ segment α d e) (onward : x ∈ segment α p q) :
    p ≠ q ∧ x = q ∧ (x = d ∨ x = e) := by
  rcases sides with same | same | apart
  · cases same
    simp at out
  · cases same
    simp at out
  · have common := apart x on onward
    have last : x = q := common.2.resolve_left fun eq => out.ne (eq ▸ zero)
    exact ⟨fun eq => out.ne (eq ▸ last ▸ zero), last, common.1⟩

theorem escape (left : 0 < turn a b c) (first : (p, q) = (a, b) ∨ (p, q) = (b, a) ∨ Apart a b p q)
    (second : (p, q) = (b, c) ∨ (p, q) = (c, b) ∨ Apart b c p q) (on : w ∈ segment α p q)
    (inside : InTriangle a b c w) (away : turn c a w ≤ turn c a p) :
    InTriangle a b c p ∨ w = q ∧ (w = a ∨ w = b ∨ w = c) := by
  obtain ⟨ab, bc, ca⟩ := inside
  by_cases out : turn a b p < 0 ∨ turn b c p < 0
  swap
  · rw [not_or, not_lt, not_lt] at out
    exact Or.inl ⟨out.1, out.2, ca.trans away⟩
  obtain ⟨s, low, high, exit⟩ := firstExit ab bc out
  let x : α × α := (w.1 + s * (p.1 - w.1), w.2 + s * (p.2 - w.2))
  have onward : x ∈ segment α p q :=
    (convex_segment p q).segment_subset on (left_mem_segment ..) (onSegment.mpr ⟨s, low, high, rfl⟩)
  have third : 0 ≤ turn c a x := by
    rw [turnAlong]
    nlinarith [mul_nonneg low (sub_nonneg.mpr away)]
  rw [← turnAlong, ← turnAlong] at exit
  have reached : p ≠ q ∧ x = q ∧ (x = a ∨ x = b ∨ x = c) := by
    rcases exit with ⟨neg, zero, other⟩ | ⟨neg, zero, other⟩
    · obtain ⟨differ, last, ends⟩ := exitSide first neg zero (sideMem left zero other third) onward
      exact ⟨differ, last, ends.imp_right Or.inl⟩
    · obtain ⟨differ, last, ends⟩ := exitSide second neg zero (sideMem (turnRotate a b c ▸ left) zero third other) onward
      exact ⟨differ, last, Or.inr ends⟩
  obtain ⟨differ, last, vertex⟩ := reached
  have here : w = q := backAt differ (segment_symm α p q ▸ on) low last
  rw [last, ← here] at vertex
  exact Or.inr ⟨here, vertex⟩

omit [IsStrictOrderedRing α] in
theorem besideSides {r : List (α × α)} (woven : Woven r) (side : Beside r a b) (edge : Beside r p q) :
    (p, q) = (a, b) ∨ (p, q) = (b, a) ∨ Apart a b p q := by
  rcases edge with edge | edge <;> rcases besideFree woven side _ edge with same | same | apart
  · exact Or.inl same
  · exact Or.inr (Or.inl same)
  · exact Or.inr (Or.inr apart)
  · cases same
    exact Or.inr (Or.inl rfl)
  · cases same
    exact Or.inl rfl
  · exact Or.inr (Or.inr (apartTurned apart))

section Free
variable {r : List (α × α)} (woven : Woven r) (corner : (a, b, c) ∈ triples r) (left : 0 < turn a b c)
  {v : α × α} (inC : 0 < turn a b v) (inA : 0 < turn b c v) (inB : 0 ≤ turn c a v)
include woven corner left inC inA

theorem spokeNone {t : α} (edge : Beside r b q) (t1 : t < 1)
    (on : (v.1 + t * (b.1 - v.1), v.2 + t * (b.2 - v.2)) ∈ segment α b q) : False := by
  obtain ⟨before, after⟩ := cornerBeside corner
  obtain ⟨u, u0, -, place⟩ := onSegment.mp on
  have first : (1 - t) * turn a b v = u * turn a b q := by
    have along := congrArg (turn a b) place
    rw [turnAlong, turnAlong, turnSecond] at along
    linarith
  have second : (1 - t) * turn b c v = u * turn b c q := by
    have along := congrArg (turn b c) place
    rw [turnAlong, turnAlong, turnFirst] at along
    linarith
  have short : 0 < 1 - t := sub_pos.mpr t1
  have inward := (withinBulge left (besideOff woven before) (besideOff woven after) (besideOff woven edge)).mpr
    ⟨pos_of_mul_pos_right (first ▸ mul_pos short inC) u0, pos_of_mul_pos_right (second ▸ mul_pos short inA) u0⟩
  exact woven.sectors _ corner q edge inward

variable (farthest : ∀ p ∈ r, InTriangle a b c p → p = b ∨ turn c a p ≤ turn c a v)
  (vertex : ∀ e ∈ edges r, v ∈ segment α e.1 e.2 → v = e.1 ∨ v = e.2)
include inB farthest vertex

theorem towardMeets (edge : Beside r p q) (onway : w ∈ segment α v b) (on : w ∈ segment α p q)
    (away : turn c a w ≤ turn c a p) : (w = v ∨ w = b) ∧ (w = p ∨ w = q) := by
  obtain ⟨before, after⟩ := cornerBeside corner
  have sum := weightsSum a b c v
  obtain ⟨t, t0, t1, place⟩ := onSegment.mp onway
  have ab : turn a b w = (1 - t) * turn a b v := by
    rw [place, turnAlong, turnSecond]
    ring
  have bc : turn b c w = (1 - t) * turn b c v := by
    rw [place, turnAlong, turnFirst]
    ring
  have ca : turn c a w = turn c a v + t * (turn a b c - turn c a v) := by
    rw [place, turnAlong, turnRotate c a b]
  rcases t1.eq_or_lt with last | t1
  · have here : w = b := by
      rw [place, last]
      simp
    subst here
    rcases besideSides woven before.symm edge with same | same | apart
    · cases same
      exact ⟨Or.inr rfl, Or.inr rfl⟩
    · cases same
      exact ⟨Or.inr rfl, Or.inl rfl⟩
    · exact ⟨Or.inr rfl, (apart w (right_mem_segment ..) on).2⟩
  have short := sub_pos.mpr t1
  have inside : InTriangle a b c w := by
    refine ⟨ab ▸ (mul_pos short inC).le, bc ▸ (mul_pos short inA).le, ca ▸ ?_⟩
    exact add_nonneg inB (mul_nonneg t0 (by linarith))
  rcases escape left (besideSides woven before.symm edge) (besideSides woven after edge) on inside away with
    ends | ⟨begins, rfl | here | rfl⟩
  · rcases farthest p (besideInside edge).1 ends with rfl | low
    · exact (spokeNone woven corner left inC inA edge t1 (place ▸ on)).elim
    · have climb : 0 < turn a b c - turn c a v := by linarith
      have zero : t = 0 := le_antisymm (le_of_not_gt fun pos => by linarith [mul_pos pos climb]) t0
      have here : w = v := by
        rw [place, zero]
        simp
      subst here
      refine ⟨Or.inl rfl, ?_⟩
      rcases edge with edge | edge
      · exact vertex _ edge on
      · exact (vertex _ edge (segment_symm α p q ▸ on)).symm
  · rw [turnFirst] at ab
    exact absurd ab (mul_pos short inC).ne
  · exact ⟨Or.inr here, Or.inr begins⟩
  · rw [turnSecond] at bc
    exact absurd bc (mul_pos short inA).ne

/-- A point in a bulging corner is free to be joined to the vertex, if no vertex in the triangle is farther from the
third side. -/
theorem freeToward : Free r v b := by
  -- Of the two ends of an edge, it goes on to the one that is not nearer to the third side.
  intro e mem
  refine Or.inr (Or.inr fun w onway on => ?_)
  have toward {p q : α × α} (edge : Beside r p q) := towardMeets woven corner left inC inA inB farthest vertex edge onway
  rcases turnEither c a on with away | away
  · exact toward (Or.inl mem) on away
  · exact (toward (Or.inr mem) (segment_symm α e.1 e.2 ▸ on) away).imp_right Or.symm

end Free

end SceneStream.Geometry.Plane
