import SceneStream.Proofs.Geometry.Plane.Join

/-! Where segments meet: two that do so cross each other, or an end of one is on the other. -/
namespace SceneStream.Geometry.Plane
variable {α : Type} [Field α] [LinearOrder α]

def EndsMeet (a b c d : α × α) : Prop :=
  c ∈ segment α a b ∨ d ∈ segment α a b ∨ a ∈ segment α c d ∨ b ∈ segment α c d

def Opposite (x y : α) : Prop := 0 < x ∧ y < 0 ∨ x < 0 ∧ 0 < y

def Cross (a b c d : α × α) : Prop := Opposite (turn a b c) (turn a b d) ∧ Opposite (turn c d a) (turn c d b)

variable [IsStrictOrderedRing α] {a b c d p w : α × α}

omit [LinearOrder α] [IsStrictOrderedRing α] in
theorem linePart (differ : a ≠ b) (on : turn a b p = 0) : ∃ t, p = (a.1 + t * (b.1 - a.1), a.2 + t * (b.2 - a.2)) := by
  unfold turn at on
  by_cases across : b.1 = a.1
  · have up : b.2 - a.2 ≠ 0 := fun zero => differ (Prod.ext across.symm (sub_eq_zero.mp zero).symm)
    refine ⟨(p.2 - a.2) / (b.2 - a.2), Prod.ext ?_ ?_⟩ <;> field_simp
    · linear_combination -on
    · ring
  · have across := sub_ne_zero.mpr across
    refine ⟨(p.1 - a.1) / (b.1 - a.1), Prod.ext ?_ ?_⟩ <;> field_simp
    · ring
    · linear_combination on

theorem partBounds {t x y : α} (t0 : 0 ≤ t) (t1 : t ≤ 1) : min x y ≤ x + t * (y - x) ∧ x + t * (y - x) ≤ max x y := by
  rcases le_total x y with order | order
  · rw [min_eq_left order, max_eq_right order]
    constructor <;> nlinarith
  · rw [min_eq_right order, max_eq_left order]
    constructor <;> nlinarith

theorem lineMeet (first : turn a b c = 0) (second : turn a b d = 0) (on : w ∈ segment α a b)
    (onward : w ∈ segment α c d) : EndsMeet a b c d := by
  by_cases point : a = b
  · subst point
    rw [segment_same, Set.mem_singleton_iff] at on
    exact Or.inr (Or.inr (Or.inl (on ▸ onward)))
  obtain ⟨t, rfl⟩ := linePart point first
  obtain ⟨u, rfl⟩ := linePart point second
  obtain ⟨r, r0, r1, rfl⟩ := onSegment.mp on
  obtain ⟨s, s0, s1, same⟩ := onSegment.mp onward
  have between : r = t + s * (u - t) := by
    obtain ⟨across, up⟩ := Prod.ext_iff.mp same
    dsimp only at across up
    by_contra other
    have zero : r - (t + s * (u - t)) ≠ 0 := sub_ne_zero.mpr other
    refine point (Prod.ext ?_ ?_) <;> refine (sub_eq_zero.mp (mul_left_cancel₀ zero ?_)).symm
    · linear_combination across
    · linear_combination up
  by_cases early : 0 ≤ t ∧ t ≤ 1
  · exact Or.inl (onSegment.mpr ⟨t, early.1, early.2, rfl⟩)
  by_cases late : 0 ≤ u ∧ u ≤ 1
  · exact Or.inr (Or.inl (onSegment.mpr ⟨u, late.1, late.2, rfl⟩))
  -- the other segment goes past the whole of this one
  have past : t < 0 ∧ 1 < u ∨ u < 0 ∧ 1 < t := by
    have bounds := partBounds (x := t) (y := u) s0 s1
    rw [← between, min_le_iff, le_max_iff] at bounds
    rw [not_and_or, not_le, not_le] at early late
    grind
  refine Or.inr (Or.inr (Or.inl (onSegment.mpr ⟨-t / (u - t), ?_, ?_, ?_⟩)))
  · rcases past with ⟨low, high⟩ | ⟨low, high⟩
    · exact div_nonneg (by linarith) (by linarith)
    · exact div_nonneg_of_nonpos (by linarith) (by linarith)
  · rcases past with ⟨low, high⟩ | ⟨low, high⟩
    · exact (div_le_one (by linarith)).mpr (by linarith)
    · exact (div_le_one_of_neg (by linarith)).mpr (by linarith)
  · have apart : u - t ≠ 0 := by
      rcases past with ⟨low, high⟩ | ⟨low, high⟩
      · linarith
      · linarith
    refine Prod.ext ?_ ?_ <;> dsimp only <;> field_simp <;> ring

omit [IsStrictOrderedRing α] in
theorem endsSymm (ends : EndsMeet a b c d) : EndsMeet c d a b := by
  unfold EndsMeet at *
  tauto

theorem acrossOr (on : w ∈ segment α c d) (zero : turn a b w = 0) :
    w = c ∨ w = d ∨ (turn a b c = 0 ∧ turn a b d = 0) ∨ Opposite (turn a b c) (turn a b d) := by
  rcases segmentInner on with first | last | ⟨s, s0, s1, rfl⟩
  · exact Or.inl first
  · exact Or.inr (Or.inl last)
  rw [turnAlong] at zero
  refine Or.inr (Or.inr ?_)
  have rest := sub_pos.mpr s1
  have sum : (1 - s) * turn a b c + s * turn a b d = 0 := by linear_combination zero
  rcases lt_trichotomy (turn a b c) 0 with right | same | left
  · exact Or.inr (Or.inr ⟨right, by nlinarith [mul_pos rest (neg_pos.mpr right)]⟩)
  · rw [same, mul_zero, zero_add, mul_eq_zero] at sum
    exact Or.inl ⟨same, sum.resolve_left s0.ne'⟩
  · exact Or.inr (Or.inl ⟨left, by nlinarith [mul_pos rest left]⟩)

theorem segmentLine (on : w ∈ segment α a b) : turn a b w = 0 := by
  obtain ⟨t, -, -, rfl⟩ := onSegment.mp on
  rw [turnAlong, turnFirst, turnSecond, sub_self, mul_zero, add_zero]

theorem meetEither (on : w ∈ segment α a b) (onward : w ∈ segment α c d) : EndsMeet a b c d ∨ Cross a b c d := by
  rcases acrossOr onward (segmentLine on) with rfl | rfl | line | first
  · exact Or.inl (Or.inl on)
  · exact Or.inl (Or.inr (Or.inl on))
  · exact Or.inl (lineMeet line.1 line.2 on onward)
  rcases acrossOr on (segmentLine onward) with rfl | rfl | line | second
  · exact Or.inl (Or.inr (Or.inr (Or.inl onward)))
  · exact Or.inl (Or.inr (Or.inr (Or.inr onward)))
  · exact Or.inl (endsSymm (lineMeet line.1 line.2 onward on))
  · exact Or.inr ⟨first, second⟩

theorem oppositePart {x y : α} (opposite : Opposite x y) : 0 ≤ x / (x - y) ∧ x / (x - y) ≤ 1 ∧ x - y ≠ 0 := by
  rcases opposite with ⟨pos, neg⟩ | ⟨neg, pos⟩
  · exact ⟨div_nonneg pos.le (by linarith), (div_le_one (by linarith)).mpr (by linarith), by linarith⟩
  · exact ⟨div_nonneg_of_nonpos neg.le (by linarith), (div_le_one_of_neg (by linarith)).mpr (by linarith), by linarith⟩

theorem crossMeet (cross : Cross a b c d) : ∃ w ∈ segment α a b, w ∈ segment α c d := by
  obtain ⟨t0, t1, some⟩ := oppositePart cross.2
  obtain ⟨s0, s1, some'⟩ := oppositePart cross.1
  refine ⟨_, onSegment.mpr ⟨_, t0, t1, rfl⟩, onSegment.mpr ⟨_, s0, s1, ?_⟩⟩
  refine Prod.ext ?_ ?_ <;> dsimp only <;> field_simp <;> unfold turn <;> ring

theorem meetIff : (∃ w ∈ segment α a b, w ∈ segment α c d) ↔ EndsMeet a b c d ∨ Cross a b c d := by
  constructor
  · rintro ⟨w, on, onward⟩
    exact meetEither on onward
  · rintro ((on | on | on | on) | cross)
    · exact ⟨c, on, left_mem_segment ..⟩
    · exact ⟨d, on, right_mem_segment ..⟩
    · exact ⟨a, left_mem_segment .., on⟩
    · exact ⟨b, right_mem_segment .., on⟩
    · exact crossMeet cross

theorem boxSegment : p ∈ segment α a b ↔ turn a b p = 0 ∧ min a.1 b.1 ≤ p.1 ∧ p.1 ≤ max a.1 b.1 ∧
    min a.2 b.2 ≤ p.2 ∧ p.2 ≤ max a.2 b.2 := by
  constructor
  · intro on
    refine ⟨segmentLine on, ?_⟩
    obtain ⟨t, t0, t1, rfl⟩ := onSegment.mp on
    exact ⟨(partBounds t0 t1).1, (partBounds t0 t1).2, partBounds t0 t1⟩
  · rintro ⟨line, left, right, low, high⟩
    by_cases point : a = b
    · subst point
      simp only [min_self, max_self] at left right low high
      rw [segment_same]
      exact Prod.ext (le_antisymm right left) (le_antisymm high low)
    obtain ⟨t, rfl⟩ := linePart point line
    have part {x y : α} (differ : x ≠ y) (low : min x y ≤ x + t * (y - x)) (high : x + t * (y - x) ≤ max x y) :
        0 ≤ t ∧ t ≤ 1 := by
      rcases lt_or_gt_of_ne differ with order | order
      · rw [min_eq_left order.le] at low
        rw [max_eq_right order.le] at high
        constructor <;> by_contra out <;> nlinarith
      · rw [min_eq_right order.le] at low
        rw [max_eq_left order.le] at high
        constructor <;> by_contra out <;> nlinarith
    have inside : 0 ≤ t ∧ t ≤ 1 := by
      by_cases across : a.1 = b.1
      · exact part (fun up => point (Prod.ext across up)) low high
      · exact part across left right
    exact onSegment.mpr ⟨t, inside.1, inside.2, rfl⟩

end SceneStream.Geometry.Plane
