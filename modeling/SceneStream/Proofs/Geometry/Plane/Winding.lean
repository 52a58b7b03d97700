import SceneStream.Proofs.Geometry.Plane.Segment
import SceneStream.Proofs.Geometry.Ring

/-! How often a ring winds about a place next to a point. The place is told by the direction in which it lies
from the point, so that the point may be a vertex of the ring. -/
namespace SceneStream.Geometry.Plane

section Order
variable {α : Type} [Field α] [LinearOrder α]

/-- Directions from a point, in the order in which a turn to the left that begins at the right comes by them. -/
def angle (z p : α × α) : Bool ×ₗ α := toLex (decide (p.2 < z.2), -((p.1 - z.1) / (p.2 - z.2)))

/-- A place next to a direction, on its left or on its right. -/
structure Germ (α : Type) where
  angle : Bool ×ₗ α
  left : Bool

def Germ.Past (g : Germ α) (t : Bool ×ₗ α) : Prop := t < g.angle ∨ (g.left ∧ t = g.angle)

def toward (z p : α × α) (left : Bool) : Germ α := ⟨angle z p, left⟩

open Classical in
noncomputable def mark (p : Prop) : ℤ := if p then 1 else 0

theorem markTrue {p : Prop} (h : p) : mark p = 1 := if_pos h

theorem markFalse {p : Prop} (h : ¬p) : mark p = 0 := if_neg h

theorem markSame {p q : Prop} (same : p ↔ q) : mark p = mark q := congrArg mark (propext same)

theorem markNot (p : Prop) : mark (¬p) = 1 - mark p := by
  by_cases h : p
  · rw [markTrue h, markFalse (not_not.mpr h), sub_self]
  · rw [markTrue h, markFalse h, sub_zero]

noncomputable def crossing (z p q : α × α) : ℤ :=
  mark (p.2 < z.2 ∧ z.2 < q.2 ∧ 0 < turn p q z) - mark (q.2 < z.2 ∧ z.2 < p.2 ∧ turn p q z < 0)

/-- What an edge adds to the winding; an edge that begins or ends at `z` is passed by a turn about `z`. -/
noncomputable def passes (z : α × α) (g : Germ α) (p q : α × α) : ℤ :=
  if p = z then mark (g.Past (angle z q))
  else if q = z then -mark (g.Past (angle z p))
  else crossing z p q

noncomputable def winding (r : List (α × α)) (z : α × α) (g : Germ α) : ℤ :=
  ((edges r).map fun e => passes z g e.1 e.2).sum

theorem angleAcross {z p q : α × α} (above : z.2 < p.2) (below : q.2 < z.2) : angle z p < angle z q := by
  rw [angle, angle, Prod.Lex.toLex_lt_toLex, decide_eq_false above.not_gt, decide_eq_true below]
  exact Or.inl rfl

theorem pastToward {z p q : α × α} (s : Bool) (other : angle z q ≠ angle z p) :
    (toward z p s).Past (angle z q) ↔ angle z q < angle z p := by
  simp [Germ.Past, toward, other]

theorem crossingUp {z p q : α × α} (rise : p.2 < q.2) :
    crossing z p q = mark (p.2 < z.2 ∧ z.2 < q.2 ∧ 0 < turn p q z) := by
  rw [crossing, markFalse (p := q.2 < z.2 ∧ _), sub_zero]
  exact fun h => (h.1.trans h.2.1).not_gt rise

theorem crossingWithin {z p q : α × α} (low : p.2 < z.2) (high : z.2 < q.2) :
    crossing z p q = mark (0 < turn p q z) :=
  (crossingUp (low.trans high)).trans (markSame ⟨fun h => h.2.2, fun h => ⟨low, high, h⟩⟩)

theorem crossingOutside {z p q : α × α} (rise : p.2 < q.2) (outside : z.2 ≤ p.2 ∨ q.2 ≤ z.2) :
    crossing z p q = 0 :=
  (crossingUp rise).trans (markFalse fun h => outside.elim h.1.not_ge h.2.1.not_ge)

end Order

variable {α : Type} [Field α] [LinearOrder α] [IsStrictOrderedRing α]

theorem angleSame {z p q : α × α} (sides : p.2 < z.2 ↔ q.2 < z.2) (offP : p.2 ≠ z.2) (offQ : q.2 ≠ z.2) :
    angle z p < angle z q ↔ 0 < turn z p q := by
  have p0 : p.2 - z.2 ≠ 0 := sub_ne_zero.mpr offP
  have q0 : q.2 - z.2 ≠ 0 := sub_ne_zero.mpr offQ
  have alike : 0 < (p.2 - z.2) * (q.2 - z.2) := by
    rcases lt_or_gt_of_ne offP with low | high
    · exact mul_pos_of_neg_of_neg (sub_neg.mpr low) (sub_neg.mpr (sides.mp low))
    · have above := lt_of_le_of_ne (not_lt.mp (mt sides.mpr high.not_gt)) offQ.symm
      exact mul_pos (sub_pos.mpr high) (sub_pos.mpr above)
  have quotient : (p.1 - z.1) / (p.2 - z.2) - (q.1 - z.1) / (q.2 - z.2) =
      turn z p q / ((p.2 - z.2) * (q.2 - z.2)) := by
    rw [div_sub_div _ _ p0 q0, turn]
  have half : decide (p.2 < z.2) = decide (q.2 < z.2) := decide_eq_decide.mpr sides
  rw [angle, angle, Prod.Lex.toLex_lt_toLex, half]
  simp only [lt_irrefl, true_and, false_or, neg_lt_neg_iff]
  rw [← sub_pos, quotient, div_pos_iff_of_pos_right alike]

theorem angleLine {z p q : α × α} (offP : p.2 ≠ z.2) (offQ : q.2 ≠ z.2) (same : angle z p = angle z q) :
    turn z p q = 0 := by
  by_cases sides : p.2 < z.2 ↔ q.2 < z.2
  · refine le_antisymm (not_lt.mp fun left => ?_) (not_lt.mp fun right => ?_)
    · exact ((angleSame sides offP offQ).mpr left).ne same
    · rw [turnFlip, neg_lt_zero] at right
      exact ((angleSame sides.symm offQ offP).mpr right).ne' same
  · have := congrArg (fun t => (ofLex t).1) same
    exact absurd (decide_eq_decide.mp this) sides

theorem crossingReversed (z p q : α × α) : crossing z q p = -crossing z p q := by
  have same (a b : α × α) (s : α) : turn b a z < 0 ↔ 0 < turn a b z := by rw [turnSwap, neg_lt_zero]
  have other (a b : α × α) (s : α) : 0 < turn b a z ↔ turn a b z < 0 := by rw [turnSwap, neg_pos]
  rw [crossing, crossing, neg_sub, markSame (and_congr_right' (and_congr_right' (other p q 0))),
    markSame (and_congr_right' (and_congr_right' (same p q 0)))]

theorem passesReversed {z : α × α} (g : Germ α) {p q : α × α} (proper : p ≠ q) :
    passes z g q p = -passes z g p q := by
  unfold passes
  by_cases first : p = z
  · have second : q ≠ z := fun eq => proper (first.trans eq.symm)
    rw [if_neg second, if_pos first, if_pos first]
  · by_cases second : q = z
    · rw [if_pos second, if_neg first, if_pos second, neg_neg]
    · rw [if_neg second, if_neg first, if_neg first, if_neg second, crossingReversed]

theorem apartTurn {z p q : α × α} (sides : 0 < (p.2 - z.2) * (q.2 - z.2)) (differ : p ≠ q)
    (apart : Apart z p z q) : turn z p q ≠ 0 := by
  intro line
  have p0 : p.2 - z.2 ≠ 0 := left_ne_zero_of_mul sides.ne'
  have q0 : q.2 - z.2 ≠ 0 := right_ne_zero_of_mul sides.ne'
  have offP : p ≠ z := fun eq => p0 (by rw [eq, sub_self])
  have offQ : q ≠ z := fun eq => q0 (by rw [eq, sub_self])
  have cross : (p.1 - z.1) * (q.2 - z.2) = (p.2 - z.2) * (q.1 - z.1) := sub_eq_zero.mp line
  have positive : 0 < (q.2 - z.2) / (p.2 - z.2) :=
    (div_pos_iff_of_pos_right (sq_pos_of_ne_zero p0)).mpr sides |>.trans_eq (by field_simp)
  have placeQ : q = (z.1 + (q.2 - z.2) / (p.2 - z.2) * (p.1 - z.1),
      z.2 + (q.2 - z.2) / (p.2 - z.2) * (p.2 - z.2)) := by
    refine Prod.ext ?_ ?_ <;> field_simp <;> linarith
  have placeP : p = (z.1 + (p.2 - z.2) / (q.2 - z.2) * (q.1 - z.1),
      z.2 + (p.2 - z.2) / (q.2 - z.2) * (q.2 - z.2)) := by
    refine Prod.ext ?_ ?_ <;> field_simp <;> linarith
  rcases le_total ((q.2 - z.2) / (p.2 - z.2)) 1 with short | long
  · have inside := onSegment.mpr ⟨_, positive.le, short, placeQ⟩
    exact ((apart q inside (right_mem_segment ..)).1).elim offQ fun eq => differ eq.symm
  · have back : (p.2 - z.2) / (q.2 - z.2) = ((q.2 - z.2) / (p.2 - z.2))⁻¹ := (inv_div ..).symm
    have inside := onSegment.mpr ⟨_, back ▸ (inv_pos.mpr positive).le, back ▸ inv_le_one_of_one_le₀ long, placeP⟩
    exact ((apart p (right_mem_segment ..) inside).2).elim offP differ

end SceneStream.Geometry.Plane
