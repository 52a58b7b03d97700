import Mathlib

/-! Points of a plane over an ordered field: which way three of them turn, and where segments meet. -/
namespace SceneStream.Geometry.Plane

section Field
variable {α : Type} [Field α]

/-- Positive where the way from `a` through `b` to `c` turns to the left. -/
def turn (a b c : α × α) : α := (b.1 - a.1) * (c.2 - a.2) - (b.2 - a.2) * (c.1 - a.1)

theorem turnRotate (a b c : α × α) : turn a b c = turn b c a := by
  unfold turn
  ring

theorem turnFlip (a b c : α × α) : turn a c b = -turn a b c := by
  unfold turn
  ring

theorem turnSwap (a b c : α × α) : turn b a c = -turn a b c := by
  unfold turn
  ring

@[simp] theorem turnFirst (a b : α × α) : turn a b a = 0 := by simp [turn]

@[simp] theorem turnSecond (a b : α × α) : turn a b b = 0 := by
  unfold turn
  ring

theorem turnAlong (a b p q : α × α) (t : α) :
    turn a b (p.1 + t * (q.1 - p.1), p.2 + t * (q.2 - p.2)) =
      turn a b p + t * (turn a b q - turn a b p) := by
  unfold turn
  ring

def reach (p q : α × α) (t : α) : α := p.1 + (t - p.2) / (q.2 - p.2) * (q.1 - p.1)

@[simp] theorem reachFirst (p q : α × α) : reach p q p.2 = p.1 := by simp [reach]

end Field

section Order
variable {α : Type} [Field α] [LinearOrder α]

def Level (l : List (α × α)) : Prop := ∀ p ∈ l, ∀ q ∈ l, p.2 = q.2 → p = q

def Apart (p q x y : α × α) : Prop :=
  ∀ w ∈ segment α p q, w ∈ segment α x y → (w = p ∨ w = q) ∧ (w = x ∨ w = y)

theorem apartSymm {p q x y : α × α} (apart : Apart p q x y) : Apart x y p q :=
  fun w first second => (apart w second first).symm

theorem apartTurned {p q x y : α × α} (apart : Apart p q x y) : Apart p q y x := by
  intro w first second
  rw [segment_symm] at second
  exact ⟨(apart w first second).1, (apart w first second).2.symm⟩

end Order

variable {α : Type} [Field α] [LinearOrder α] [IsStrictOrderedRing α]

theorem onSegment {w p q : α × α} :
    w ∈ segment α p q ↔ ∃ t, 0 ≤ t ∧ t ≤ 1 ∧ w = (p.1 + t * (q.1 - p.1), p.2 + t * (q.2 - p.2)) := by
  rw [segment_eq_image', Set.mem_image]
  simp only [Set.mem_Icc, Prod.ext_iff, Prod.fst_add, Prod.snd_add, Prod.smul_fst, Prod.smul_snd,
    Prod.fst_sub, Prod.snd_sub, smul_eq_mul, and_assoc, eq_comm]

theorem segmentInner {w p q : α × α} (on : w ∈ segment α p q) : w = p ∨ w = q ∨
    ∃ t, 0 < t ∧ t < 1 ∧ w = (p.1 + t * (q.1 - p.1), p.2 + t * (q.2 - p.2)) := by
  obtain ⟨t, t0, t1, rfl⟩ := onSegment.mp on
  rcases t0.eq_or_lt with rfl | t0
  · exact Or.inl (by simp)
  rcases t1.eq_or_lt with rfl | t1
  · exact Or.inr (Or.inl (by simp))
  · exact Or.inr (Or.inr ⟨t, t0, t1, rfl⟩)

theorem turnEither {w p q : α × α} (a b : α × α) (on : w ∈ segment α p q) :
    turn a b w ≤ turn a b p ∨ turn a b w ≤ turn a b q := by
  obtain ⟨t, t0, t1, rfl⟩ := onSegment.mp on
  rw [turnAlong]
  rcases le_total (turn a b q) (turn a b p) with order | order
  · exact Or.inl (by nlinarith)
  · exact Or.inr (by nlinarith)

theorem reachLast {p q : α × α} (climb : p.2 < q.2) : reach p q q.2 = q.1 := by
  have : q.2 - p.2 ≠ 0 := (sub_pos.mpr climb).ne'
  rw [reach, div_self this]
  ring

theorem reachMem {p q : α × α} {t : α} (climb : p.2 < q.2) (low : p.2 ≤ t) (high : t ≤ q.2) :
    (reach p q t, t) ∈ segment α p q := by
  have rise := sub_pos.mpr climb
  refine onSegment.mpr ⟨(t - p.2) / (q.2 - p.2), div_nonneg (sub_nonneg.mpr low) rise.le,
    (div_le_one rise).mpr (by linarith), ?_⟩
  rw [div_mul_cancel₀ _ rise.ne', reach, add_sub_cancel]

theorem turnReach {p q : α × α} (climb : p.2 < q.2) (z : α × α) :
    turn p q z = (q.2 - p.2) * (reach p q z.2 - z.1) := by
  have : q.2 - p.2 ≠ 0 := (sub_pos.mpr climb).ne'
  unfold turn reach
  field_simp
  ring

theorem leftReach {p q : α × α} (climb : p.2 < q.2) (z : α × α) :
    0 < turn p q z ↔ z.1 < reach p q z.2 := by
  rw [turnReach climb, mul_pos_iff_of_pos_left (sub_pos.mpr climb), sub_pos]

theorem rightReach {p q : α × α} (climb : p.2 < q.2) (z : α × α) :
    turn p q z < 0 ↔ reach p q z.2 < z.1 := by
  rw [turnReach climb, ← neg_pos, ← mul_neg, neg_sub, mul_pos_iff_of_pos_left (sub_pos.mpr climb), sub_pos]

theorem evenSign {a b low high : α} (order : low ≤ high)
    (never : ∀ t, low ≤ t → t ≤ high → a + b * t ≠ 0) : 0 < a + b * low ↔ 0 < a + b * high := by
  have first := never low le_rfl order
  have last := never high order le_rfl
  have root (slope : b ≠ 0) : a + b * (-a / b) = 0 := by
    field_simp
    ring
  constructor
  · intro start
    by_contra finish
    have ends : a + b * high < 0 := lt_of_le_of_ne (not_lt.mp finish) last
    have slope : b < 0 := by nlinarith
    refine never (-a / b) ?_ ?_ (root slope.ne)
    · rw [le_div_iff_of_neg slope]
      linarith
    · rw [div_le_iff_of_neg slope]
      linarith
  · intro finish
    by_contra start
    have begins : a + b * low < 0 := lt_of_le_of_ne (not_lt.mp start) first
    have slope : 0 < b := by nlinarith
    refine never (-a / b) ?_ ?_ (root slope.ne')
    · rw [le_div_iff₀ slope]
      linarith
    · rw [div_le_iff₀ slope]
      linarith

theorem sameSide {x y p q : α × α} {low high : α} (order : low ≤ high)
    (apart : ∀ t, low ≤ t → t ≤ high → reach x y t ≠ reach p q t) :
    reach x y low < reach p q low ↔ reach x y high < reach p q high := by
  let slope (p q : α × α) := (q.1 - p.1) / (q.2 - p.2)
  have even (t : α) : reach p q t - reach x y t =
      (p.1 - p.2 * slope p q - (x.1 - x.2 * slope x y)) + (slope p q - slope x y) * t := by
    simp only [reach, slope, div_eq_mul_inv]
    ring
  rw [← sub_pos, ← sub_pos (b := reach x y high), even, even]
  refine evenSign order fun t after before => ?_
  rw [← even]
  exact sub_ne_zero.mpr (apart t after before).symm

end SceneStream.Geometry.Plane
