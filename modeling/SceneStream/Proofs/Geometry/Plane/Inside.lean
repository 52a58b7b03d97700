import SceneStream.Proofs.Geometry.Plane.TwoEars

/-! The inside of triangles. A ring winds once about what is inside an ear, so that what is left when the ear is cut off
does not wind about it. -/
namespace SceneStream.Geometry.Plane
variable {α : Type} [Field α] [LinearOrder α] [IsStrictOrderedRing α] {a b c v p q : α × α} {r : List (α × α)}

def Inner (a b c p : α × α) : Prop := 0 < turn a b p ∧ 0 < turn b c p ∧ 0 < turn c a p

omit [IsStrictOrderedRing α] in
theorem innerIn (inner : Inner a b c p) : InTriangle a b c p := ⟨inner.1.le, inner.2.1.le, inner.2.2.le⟩

omit [IsStrictOrderedRing α] in
theorem innerOther (inner : Inner a b c p) : p ≠ a ∧ p ≠ b ∧ p ≠ c := by
  obtain ⟨ab, bc, ca⟩ := inner
  refine ⟨?_, ?_, ?_⟩ <;> rintro rfl
  · simp at ab
  · simp at ab
  · simp at bc

theorem innerPart {x y : α} (left : 0 < turn a b c) (x0 : 0 < x) (x1 : x < 1) (y0 : 0 < y) (y1 : y < 1)
    (side : p = (a.1 + x * (b.1 - a.1), a.2 + x * (b.2 - a.2))) :
    Inner a b c (p.1 + y * (c.1 - p.1), p.2 + y * (c.2 - p.2)) := by
  have short := sub_pos.mpr x1
  have rest := sub_pos.mpr y1
  have ab : turn a b p = 0 := by rw [side, turnAlong, turnFirst, turnSecond, sub_self, mul_zero, add_zero]
  have bc : turn b c p = (1 - x) * turn a b c := by
    rw [side, turnAlong, turnFirst, ← turnRotate]
    ring
  have ca : turn c a p = x * turn a b c := by
    rw [side, turnAlong, turnSecond, turnRotate c a b]
    ring
  refine ⟨?_, ?_, ?_⟩
  · rw [turnAlong, ab]
    linarith [mul_pos y0 left]
  · rw [turnAlong, bc, turnSecond]
    linarith [mul_pos rest (mul_pos short left)]
  · rw [turnAlong, ca, turnFirst]
    linarith [mul_pos rest (mul_pos x0 left)]

section Ear
variable (woven : Woven r) (ear : Ear r (a, b, c)) (inner : Inner a b c v)
include woven ear inner

theorem innerOff (edge : Beside r p q) (on : v ∈ segment α p q) (away : turn c a v ≤ turn c a p) : False := by
  obtain ⟨before, after⟩ := cornerBeside ear.mem
  have other := innerOther inner
  rcases escape ear.bulges (besideSides woven before.symm edge) (besideSides woven after edge) on (innerIn inner) away with
    within | ⟨-, ends⟩
  · have above := inner.2.2.trans_le away
    rcases ear.clear p (besideInside edge).1 within with rfl | rfl | rfl
    · simp at above
    · exact spokeNone woven ear.mem ear.bulges inner.1 inner.2.1 edge zero_lt_one (by simpa using on)
    · simp at above
  · tauto

theorem innerFree : Free r v b := by
  refine freeToward woven ear.mem ear.bulges inner.1 inner.2.1 inner.2.2.le (fun p mem within => ?_) fun e edge on => ?_
  · have above := inner.2.2.le
    rcases ear.clear p mem within with rfl | rfl | rfl
    · exact Or.inr (by simpa using above)
    · exact Or.inl rfl
    · exact Or.inr (by simpa using above)
  · exfalso
    rcases turnEither c a on with away | away
    · exact innerOff woven ear inner (Or.inl edge) on away
    · exact innerOff woven ear inner (Or.inr edge) (segment_symm α e.1 e.2 ▸ on) away

end Ear

theorem innerWinding (filled : Filled r) (ear : Ear r (a, b, c)) (level : Level (v :: r)) (inner : Inner a b c v)
    (g : Germ α) : winding r v g = 1 := by
  have woven := filled.toWoven
  obtain ⟨before, after⟩ := cornerBeside ear.mem
  obtain ⟨-, differ, -⟩ := innerOther inner
  have here : b ∈ r := (besideInside before).1
  have new : v ∉ r := fun mem => by
    have ends := ear.clear v mem (innerIn inner)
    have other := innerOther inner
    tauto
  have off : v.2 ≠ b.2 := fun same => differ (level v (by simp) b (by simp [here]) same)
  have inward := (withinBulge ear.bulges (besideOff woven before) (besideOff woven after) off).mpr ⟨inner.1, inner.2.1⟩
  have along := sweep differ woven.proper (fun p one q two => level p (by grind) q (by grind))
    (innerFree woven ear inner) true
  have none : ∀ t ∈ triples r, ∀ g, ¬Holds v g t := fun t mem g holds =>
    new (holds.1 ▸ (besideInside (cornerBeside mem).1).1)
  rw [windingHeld woven ear.mem ⟨rfl, withinIn inward⟩, filled.depth b here,
    windingOpen woven fun t mem => none t mem _] at along
  rw [windingOpen woven fun t mem => none t mem g, ← along]
  rfl

/-- How often a ring winds about a point that is no vertex of it. -/
noncomputable def turning (r : List (α × α)) (z : α × α) : ℤ := ((edges r).map fun e => crossing z e.1 e.2).sum

omit [IsStrictOrderedRing α] in
theorem windingTurning (new : v ∉ r) (g : Germ α) : winding r v g = turning r v := by
  refine congrArg List.sum (List.map_congr_left fun e mem => ?_)
  obtain ⟨first, second⟩ := edgesInside mem
  rw [passes, if_neg fun same : e.1 = v => new (same ▸ first), if_neg fun same : e.2 = v => new (same ▸ second)]

omit [IsStrictOrderedRing α] in
theorem crossingNone (same : v.2 < p.2 ∧ v.2 < q.2 ∨ p.2 < v.2 ∧ q.2 < v.2) : crossing v p q = 0 := by
  rw [crossing, markFalse, markFalse, sub_zero] <;> grind

omit [LinearOrder α] [IsStrictOrderedRing α] in
theorem weightsHeight (a b c v : α × α) :
    turn b c v * (v.2 - a.2) + turn c a v * (v.2 - b.2) + turn a b v * (v.2 - c.2) = 0 := by
  unfold turn
  ring

theorem innerBetween (inner : Inner a b c v) : ¬(v.2 < a.2 ∧ v.2 < b.2 ∧ v.2 < c.2) ∧ ¬(a.2 < v.2 ∧ b.2 < v.2 ∧ c.2 < v.2) := by
  have height := weightsHeight a b c v
  obtain ⟨ab, bc, ca⟩ := inner
  refine ⟨fun ⟨va, vb, vc⟩ => ?_, fun ⟨va, vb, vc⟩ => ?_⟩
  · nlinarith [mul_pos bc (sub_pos.mpr va), mul_pos ca (sub_pos.mpr vb), mul_pos ab (sub_pos.mpr vc)]
  · nlinarith [mul_pos bc (sub_pos.mpr va), mul_pos ca (sub_pos.mpr vb), mul_pos ab (sub_pos.mpr vc)]

/-- How a triangle turns about a point: at most once, and that only about points of its own. -/
structure TurnsOnce (a b c v : α × α) (n : ℤ) : Prop where
  either : n = 0 ∨ n = 1
  inner : Inner a b c v → n = 1
  inside : n = 1 → InTriangle a b c v

omit [IsStrictOrderedRing α] in
theorem onceRotate {n : ℤ} (once : TurnsOnce a b c v n) : TurnsOnce b c a v n :=
  ⟨once.either, fun inner => once.inner ⟨inner.2.2, inner.1, inner.2.1⟩,
    fun one => ⟨(once.inside one).2.1, (once.inside one).2.2, (once.inside one).1⟩⟩

omit [IsStrictOrderedRing α] in
theorem onceForward {n : ℤ} (once : TurnsOnce a b c v n) : 0 ≤ n := by
  rcases once.either with zero | one <;> omega

theorem weightsTurning {x y z : α} (positive : 0 < x + y + z) (low : x ≤ 0 → y < 0 → z ≤ 0)
    (high : 0 < x → 0 ≤ y → 0 ≤ z) : (mark (0 < x) - mark (y < 0) = 0 ∨ mark (0 < x) - mark (y < 0) = 1) ∧
      (0 < x → 0 < y → mark (0 < x) - mark (y < 0) = 1) ∧
        (mark (0 < x) - mark (y < 0) = 1 → 0 ≤ x ∧ 0 ≤ y ∧ 0 ≤ z) := by
  -- Of the weights of a point, those of the two sides that reach across its height tell where it is.
  rcases lt_or_ge 0 x with first | first <;> rcases lt_or_ge y 0 with second | second
  · rw [markTrue first, markTrue second]
    exact ⟨Or.inl rfl, fun _ positive => absurd positive second.not_gt, by simp⟩
  · rw [markTrue first, markFalse second.not_gt]
    exact ⟨Or.inr rfl, fun _ _ => rfl, fun _ => ⟨first.le, second, high first second⟩⟩
  · linarith [low first second]
  · rw [markFalse first.not_gt, markFalse second.not_gt]
    exact ⟨Or.inl rfl, fun positive => absurd positive first.not_gt, by simp⟩

section Triangle
variable (left : 0 < turn a b c)
include left

theorem tipTurning (apart : a.2 < v.2 ∧ v.2 < b.2 ∧ v.2 < c.2 ∨ v.2 < a.2 ∧ b.2 < v.2 ∧ c.2 < v.2) :
    TurnsOnce a b c v (crossing v a b + crossing v b c + crossing v c a) := by
  -- At a height where one vertex is on one side and two are on the other.
  have height := weightsHeight a b c v
  have sum := weightsSum a b c v
  rcases apart with ⟨va, vb, vc⟩ | ⟨va, vb, vc⟩
  · have total : crossing v a b + crossing v b c + crossing v c a = mark (0 < turn a b v) - mark (turn c a v < 0) := by
      rw [crossingNone (Or.inl ⟨vb, vc⟩), crossingReversed v a c, crossingWithin va vb, crossingWithin va vc,
        turnSwap c a v, markSame neg_pos]
      ring
    obtain ⟨either, inner, inside⟩ := weightsTurning (x := turn a b v) (y := turn c a v) (z := turn b c v)
      (by linarith) (fun ab ca => by nlinarith) fun ab ca => by nlinarith
    rw [total]
    exact ⟨either, fun within => inner within.1 within.2.2, fun one =>
      ⟨(inside one).1, (inside one).2.2, (inside one).2.1⟩⟩
  · have total : crossing v a b + crossing v b c + crossing v c a = mark (0 < turn c a v) - mark (turn a b v < 0) := by
      rw [crossingNone (Or.inr ⟨vb, vc⟩), crossingReversed v b a, crossingWithin vb va, crossingWithin vc va,
        turnSwap a b v, markSame neg_pos]
      ring
    obtain ⟨either, inner, inside⟩ := weightsTurning (x := turn c a v) (y := turn a b v) (z := turn b c v)
      (by linarith) (fun ca ab => by nlinarith) fun ca ab => by nlinarith
    rw [total]
    exact ⟨either, fun within => inner within.2.2 within.1, fun one =>
      ⟨(inside one).2.1, (inside one).2.2, (inside one).1⟩⟩

theorem triangleTurning (level : v.2 ≠ a.2 ∧ v.2 ≠ b.2 ∧ v.2 ≠ c.2) : TurnsOnce a b c v (turning [a, b, c] v) := by
  have sum : turning [a, b, c] v = crossing v a b + crossing v b c + crossing v c a := by
    simp [turning, edges, add_assoc]
  have second : crossing v a b + crossing v b c + crossing v c a = crossing v b c + crossing v c a + crossing v a b := by
    ring
  have third : crossing v a b + crossing v b c + crossing v c a = crossing v c a + crossing v a b + crossing v b c := by
    ring
  have none (out : ¬Inner a b c v) : TurnsOnce a b c v 0 := ⟨Or.inl rfl, fun inner => absurd inner out, fun one => absurd one zero_ne_one⟩
  rw [sum]
  obtain ⟨va, vb, vc⟩ := level
  rcases lt_or_gt_of_ne va with va | va <;> rcases lt_or_gt_of_ne vb with vb | vb <;>
    rcases lt_or_gt_of_ne vc with vc | vc
  · rw [crossingNone (Or.inl ⟨va, vb⟩), crossingNone (Or.inl ⟨vb, vc⟩), crossingNone (Or.inl ⟨vc, va⟩)]
    exact none fun inner => (innerBetween inner).1 ⟨va, vb, vc⟩
  · exact third ▸ onceRotate (tipTurning (turnRotate c a b ▸ left) (Or.inl ⟨vc, va, vb⟩))
  · exact second ▸ onceRotate (onceRotate (tipTurning (turnRotate a b c ▸ left) (Or.inl ⟨vb, vc, va⟩)))
  · exact tipTurning left (Or.inr ⟨va, vb, vc⟩)
  · exact tipTurning left (Or.inl ⟨va, vb, vc⟩)
  · exact second ▸ onceRotate (onceRotate (tipTurning (turnRotate a b c ▸ left) (Or.inr ⟨vb, vc, va⟩)))
  · exact third ▸ onceRotate (tipTurning (turnRotate c a b ▸ left) (Or.inr ⟨vc, va, vb⟩))
  · rw [crossingNone (Or.inr ⟨va, vb⟩), crossingNone (Or.inr ⟨vb, vc⟩), crossingNone (Or.inr ⟨vc, va⟩)]
    exact none fun inner => (innerBetween inner).2 ⟨va, vb, vc⟩

end Triangle

end SceneStream.Geometry.Plane
