import SceneStream.Proofs.Geometry.Plane.Triangle

/-! Ears of a ring. A corner that bulges and is no ear is joined to a vertex in its triangle by a diagonal, and the third
side of one that is an ear is a diagonal. -/
namespace SceneStream.Geometry.Plane

section Sector
variable {α : Type} [LinearOrder α] {c t a : Bool ×ₗ α} {g : Germ α}

theorem inWithin (inside : g.In c a) (first : g.angle ≠ c) (last : g.angle ≠ a) : Within c g.angle a := by
  unfold Germ.In Germ.Past at inside
  unfold Within
  grind

theorem withinOr (first : t ≠ c) (last : t ≠ a) : Within c t a ∨ Within c a t ∧ Within t c a := by
  unfold Within
  grind

end Sector

theorem cornerAt {β : Type} {r : List β} {z : β} (mem : z ∈ r) : ∃ t ∈ triples r, t.2.1 = z := by
  rw [← triplesMiddle r] at mem
  exact List.mem_map.mp mem

variable {α : Type} [Field α] [LinearOrder α] [IsStrictOrderedRing α] {r : List (α × α)}

theorem besideEnd (woven : Woven r) {v p q : α × α} (mem : v ∈ r) (edge : Beside r p q) (on : v ∈ segment α p q) :
    v = p ∨ v = q := by
  obtain ⟨t, corner, rfl⟩ := cornerAt mem
  rcases besideFree woven edge _ (triplesInside corner).2 with same | same | apart
  · exact Or.inl (congrArg Prod.fst same)
  · exact Or.inr (congrArg Prod.fst same)
  · exact (apart _ on (left_mem_segment ..)).1

theorem windingMost (filled : Filled r) {z : α × α} (mem : z ∈ r) (g : Germ α) : winding r z g ≤ 1 := by
  by_cases held : ∃ t ∈ triples r, Holds z g t
  · obtain ⟨t, corner, holds⟩ := held
    rw [windingHeld filled.toWoven corner holds, filled.depth z mem]
    decide
  · rw [windingOpen filled.toWoven (by simpa using held), filled.depth z mem]
    decide

omit [IsStrictOrderedRing α] in
theorem freeApart {x z p : α × α} (free : Free r x z) (new : ¬Beside r x z) (beside : Beside r z p) : Apart z x z p := by
  rcases beside with edge | edge <;> rcases free _ edge with same | same | apart
  · exact absurd (Or.inl (same ▸ edge)) new
  · exact absurd (Or.inr (same ▸ edge)) new
  · exact fun w first second => (apart w (segment_symm α z x ▸ first) second).imp_left Or.symm
  · exact absurd (Or.inl (same ▸ edge)) new
  · exact absurd (Or.inr (same ▸ edge)) new
  · exact fun w first second =>
      (apart w (segment_symm α z x ▸ first) (segment_symm α z p ▸ second)).imp Or.symm Or.symm

theorem diagonalFrom (filled : Filled r) {t} (corner : t ∈ triples r) {z : α × α} (mem : z ∈ r) (differ : t.2.1 ≠ z)
    (free : Free r t.2.1 z) (inward : Within (angle t.2.1 t.2.2) (angle t.2.1 z) (angle t.2.1 t.1)) :
    ∃ u ∈ triples r, u.2.1 = z ∧ Diagonal r t.2.1 z t.2.2 u.2.2 u.1 t.1 := by
  have woven := filled.toWoven
  have here := (besideInside (cornerBeside corner).1).1
  have along := sweep differ woven.proper (fun a one b two => woven.level a (by grind) b (by grind)) free true
  rw [windingHeld woven corner ⟨rfl, withinIn inward⟩, filled.depth _ here] at along
  have held : ∃ u ∈ triples r, Holds z (toward z t.2.1 !true) u := by
    by_contra none
    rw [windingOpen woven (by simpa using none), filled.depth z mem] at along
    exact absurd along (by decide)
  obtain ⟨u, last, rfl, inside⟩ := held
  have off : t.2.1.2 ≠ u.2.1.2 := fun same => differ (woven.level _ here _ mem same)
  have other {p : α × α} (beside : Beside r u.2.1 p) : angle u.2.1 t.2.1 ≠ angle u.2.1 p := by
    have new : t.2.1 ≠ p := fun same => woven.sectors t corner u.2.1 (same ▸ beside.symm) inward
    exact angleApart off (besideOff woven beside) new (freeApart free (woven.sectors t corner u.2.1 · inward) beside)
  exact ⟨u, last, rfl, differ, free, inward,
    inWithin inside (other (cornerBeside last).2) (other (cornerBeside last).1)⟩

section Corner
variable {a b c v : α × α} (woven : Woven r) (corner : (a, b, c) ∈ triples r) (left : 0 < turn a b c)
include woven corner left

theorem insideStrict (mem : v ∈ r) (inside : InTriangle a b c v) (other : v ≠ a ∧ v ≠ b ∧ v ≠ c) :
    0 < turn a b v ∧ 0 < turn b c v := by
  obtain ⟨before, after⟩ := cornerBeside corner
  obtain ⟨ab, bc, ca⟩ := inside
  constructor
  · refine lt_of_le_of_ne ab fun zero => ?_
    have on := sideMem left zero.symm bc ca
    exact (besideEnd woven mem before.symm on).elim other.1 other.2.1
  · refine lt_of_le_of_ne bc fun zero => ?_
    have on := sideMem (turnRotate a b c ▸ left) zero.symm ca ab
    exact (besideEnd woven mem after on).elim other.2.1 other.2.2

end Corner

theorem bulgeLow {a b e v d y : α × α} (bulges : 0 < turn e v d) (first : 0 < turn e v y) (second : 0 < turn v d y)
    (low : turn a b e ≤ turn a b v) (low' : turn a b d ≤ turn a b v) : turn a b y ≤ turn a b v := by
  -- Where two neighbours of a bulging corner are not above a line through it, nothing in the corner is.
  have parts : turn e v d * (turn a b y - turn a b v) =
      turn v d y * (turn a b e - turn a b v) + turn e v y * (turn a b d - turn a b v) := by
    unfold turn
    ring
  nlinarith [mul_nonneg second.le (sub_nonneg.mpr low), mul_nonneg first.le (sub_nonneg.mpr low')]

/-- A bulging corner that has another vertex in its triangle is joined to one of them, in a corner that does not bulge. -/
theorem spokeFrom (filled : Filled r) {t} (corner : t ∈ triples r) (left : 0 < turn t.1 t.2.1 t.2.2) {v₀ : α × α}
    (mem : v₀ ∈ r) (inside : InTriangle t.1 t.2.1 t.2.2 v₀) (other : v₀ ≠ t.1 ∧ v₀ ≠ t.2.1 ∧ v₀ ≠ t.2.2) :
    ∃ u ∈ triples r, InTriangle t.1 t.2.1 t.2.2 u.2.1 ∧ (u.2.1 ≠ t.1 ∧ u.2.1 ≠ t.2.1 ∧ u.2.1 ≠ t.2.2) ∧
      turn u.1 u.2.1 u.2.2 ≤ 0 ∧ Diagonal r t.2.1 u.2.1 t.2.2 u.2.2 u.1 t.1 := by
  classical
  obtain ⟨a, b, c⟩ := t
  have woven := filled.toWoven
  obtain ⟨before, after⟩ := cornerBeside corner
  obtain ⟨v, chosen, farthest⟩ := Finset.exists_max_image
    (r.toFinset.filter fun p => InTriangle a b c p ∧ p ≠ a ∧ p ≠ b ∧ p ≠ c) (turn c a) ⟨v₀, by simp [mem, inside, other]⟩
  simp only [Finset.mem_filter, List.mem_toFinset, and_imp] at chosen farthest
  obtain ⟨here, inside, other⟩ := chosen
  have far (p : α × α) (mem : p ∈ r) (inside' : InTriangle a b c p) : p = b ∨ turn c a p ≤ turn c a v := by
    by_cases ends : p = a ∨ p = b ∨ p = c
    · rcases ends with rfl | rfl | rfl
      · exact Or.inr (by simpa using inside.2.2)
      · exact Or.inl rfl
      · exact Or.inr (by simpa using inside.2.2)
    · rw [not_or, not_or] at ends
      exact Or.inr (farthest p mem inside' ends.1 ends.2.1 ends.2.2)
  obtain ⟨inC, inA⟩ := insideStrict woven corner left here inside other
  have free := freeTurned (freeToward woven corner left inC inA inside.2.2 far fun e edge on =>
    besideEnd woven here (Or.inl edge) on)
  have off : v.2 ≠ b.2 := fun same => other.2.1 (woven.level v here b (besideInside before).1 same)
  have inward := (withinBulge left (besideOff woven before) (besideOff woven after) off).mpr ⟨inC, inA⟩
  obtain ⟨u, last, rfl, diagonal⟩ := diagonalFrom filled corner here other.2.1.symm free inward
  refine ⟨u, last, inside, other, ?_, diagonal⟩
  by_contra bulges
  rw [not_le] at bulges
  have low {p : α × α} (beside : Beside r u.2.1 p) : turn c a p ≤ turn c a u.2.1 := by
    by_contra high
    rw [not_le] at high
    rcases escape left (besideSides woven before.symm beside.symm) (besideSides woven after beside.symm)
      (right_mem_segment ..) inside high.le with within | ⟨-, ends⟩
    · rcases far p (besideInside beside).2 within with rfl | less
      · exact woven.sectors _ corner _ beside.symm inward
      · exact high.not_ge less
    · exact ends.elim other.1 fun ends => ends.elim other.2.1 other.2.2
  obtain ⟨back, on⟩ := cornerBeside last
  have sides := (withinBulge bulges (besideOff woven back) (besideOff woven on) off.symm).mp diagonal.last
  have under := bulgeLow bulges sides.1 sides.2 (low back) (low on)
  rw [turnRotate c a b] at under
  linarith [weightsSum a b c u.2.1]

theorem alongEither {x y q w : α × α} (off : w ≠ x) (first : w ∈ segment α x y) (second : w ∈ segment α x q) :
    y ∈ segment α x q ∨ q ∈ segment α x y := by
  obtain ⟨t, t0, t1, rfl⟩ := onSegment.mp first
  obtain ⟨s, s0, s1, same⟩ := onSegment.mp second
  obtain ⟨across, up⟩ := Prod.ext_iff.mp same
  dsimp only at across up
  have short : t ≠ 0 := by
    rintro rfl
    simp at off
  have short' : s ≠ 0 := by
    rintro rfl
    exact off (Prod.ext (by simpa using across) (by simpa using up))
  rcases le_total s t with order | order
  · refine Or.inl (onSegment.mpr ⟨s / t, div_nonneg s0 t0, div_le_one_of_le₀ order t0, ?_⟩)
    refine Prod.ext ?_ ?_ <;> field_simp <;> linarith
  · refine Or.inr (onSegment.mpr ⟨t / s, div_nonneg t0 s0, div_le_one_of_le₀ order s0, ?_⟩)
    refine Prod.ext ?_ ?_ <;> field_simp <;> linarith

structure Ear (r : List (α × α)) (t : (α × α) × (α × α) × (α × α)) : Prop where
  mem : t ∈ triples r
  bulges : 0 < turn t.1 t.2.1 t.2.2
  clear : ∀ p ∈ r, InTriangle t.1 t.2.1 t.2.2 p → p = t.1 ∨ p = t.2.1 ∨ p = t.2.2

/-- To know an ear it is enough to look at the corners that do not bulge. -/
theorem earFrom (filled : Filled r) {t} (corner : t ∈ triples r) (left : 0 < turn t.1 t.2.1 t.2.2)
    (clear : ∀ u ∈ triples r, InTriangle t.1 t.2.1 t.2.2 u.2.1 → turn u.1 u.2.1 u.2.2 ≤ 0 →
      u.2.1 = t.1 ∨ u.2.1 = t.2.1 ∨ u.2.1 = t.2.2) : Ear r t := by
  refine ⟨corner, left, fun p mem inside => ?_⟩
  by_contra other
  rw [not_or, not_or] at other
  obtain ⟨u, corner', within, away, reflex, -⟩ := spokeFrom filled corner left mem inside other
  have ends := clear u corner' within reflex
  tauto

theorem thirdAt {a b c w : α × α} (on : w ∈ segment α a c) : ∃ t, 0 ≤ t ∧ t ≤ 1 ∧ turn a b w = t * turn a b c ∧
    turn b c w = (1 - t) * turn a b c ∧ turn c a w = 0 ∧ w = (a.1 + t * (c.1 - a.1), a.2 + t * (c.2 - a.2)) := by
  obtain ⟨t, t0, t1, rfl⟩ := onSegment.mp on
  refine ⟨t, t0, t1, ?_, ?_, ?_, rfl⟩
  · rw [turnAlong, turnFirst]
    ring
  · rw [turnAlong, turnSecond, ← turnRotate a b c]
    ring
  · rw [turnAlong, turnFirst, turnSecond]
    ring

section Ear
variable (woven : Woven r) {a b c p q w : α × α} (ear : Ear r (a, b, c))
include woven ear

theorem thirdMeets (edge : Beside r p q) (other : ¬(p = a ∧ q = c)) (other' : ¬(p = c ∧ q = a))
    (on : w ∈ segment α a c) (onward : w ∈ segment α p q) (away : 0 ≤ turn c a p) :
    (w = a ∨ w = c) ∧ (w = p ∨ w = q) := by
  obtain ⟨before, after⟩ := cornerBeside ear.mem
  have left : 0 < turn a b c := ear.bulges
  have third : 0 < turn c a b := turnRotate c a b ▸ left
  obtain ⟨t, t0, t1, ab, bc, ca, place⟩ := thirdAt (b := b) on
  have inside : InTriangle a b c w := ⟨ab ▸ mul_nonneg t0 left.le, bc ▸ mul_nonneg (sub_nonneg.mpr t1) left.le, ca.ge⟩
  have last (z : α × α) (mem : z ∈ r) (here : w = z) : w = p ∨ w = q := here ▸ besideEnd woven mem edge (here ▸ onward)
  have members : a ∈ r ∧ c ∈ r := ⟨(besideInside before).2, (besideInside after).2⟩
  have ends (ends : w = a ∨ w = c) : (w = a ∨ w = c) ∧ (w = p ∨ w = q) :=
    ⟨ends, ends.elim (last a members.1) (last c members.2)⟩
  by_cases first : w = a
  · exact ends (Or.inl first)
  by_cases second : w = c
  · exact ends (Or.inr second)
  rcases escape left (besideSides woven before.symm edge) (besideSides woven after edge) onward inside (ca ▸ away) with
    within | ⟨-, rfl | rfl | rfl⟩
  · have new : a ≠ c := woven.ends _ ear.mem
    have tip (mem : q ∈ segment α a c) : q = a ∨ q = c := by
      obtain ⟨t, t0, t1, ab, bc, ca, -⟩ := thirdAt (b := b) mem
      rcases ear.clear q (besideInside edge).2 ⟨ab ▸ mul_nonneg t0 left.le,
        bc ▸ mul_nonneg (sub_nonneg.mpr t1) left.le, ca.ge⟩ with rfl | rfl | rfl
      · exact Or.inl rfl
      · exact absurd ca third.ne'
      · exact Or.inr rfl
    exfalso
    rcases ear.clear p (besideInside edge).1 within with rfl | rfl | rfl
    · rcases alongEither first on onward with past | short
      · exact (besideEnd woven members.2 edge past).elim new.symm fun same => other ⟨rfl, same.symm⟩
      · exact (tip short).elim (besideProper woven edge) fun same => other ⟨rfl, same⟩
    · have begun : 0 < t := lt_of_le_of_ne t0 fun zero => first (by simpa [← zero] using place)
      have ended : t < 1 := lt_of_le_of_ne t1 fun one => second (by simpa [one] using place)
      exact spokeNone woven ear.mem left (ab ▸ mul_pos begun left) (bc ▸ mul_pos (sub_pos.mpr ended) left) edge
        zero_lt_one (by simpa using onward)
    · rcases alongEither second (segment_symm α a p ▸ on) onward with past | short
      · exact (besideEnd woven members.1 edge past).elim new fun same => other' ⟨rfl, same.symm⟩
      · exact (tip (segment_symm α a p ▸ short)).elim (fun same => other' ⟨rfl, same⟩) (besideProper woven edge)
  · exact absurd rfl first
  · exact absurd ca third.ne'
  · exact absurd rfl second

theorem earFree : Free r a c := by
  intro e mem
  by_cases same : e = (a, c)
  · exact Or.inl same
  by_cases turned : e = (c, a)
  · exact Or.inr (Or.inl turned)
  refine Or.inr (Or.inr fun w on onward => ?_)
  obtain ⟨p, q⟩ := e
  obtain ⟨-, -, -, -, -, zero, -⟩ := thirdAt (b := b) on
  have other : ¬(p = a ∧ q = c) := fun both => same (Prod.ext both.1 both.2)
  have other' : ¬(p = c ∧ q = a) := fun both => turned (Prod.ext both.1 both.2)
  rcases turnEither c a onward with away | away
  · exact thirdMeets woven ear (Or.inl mem) other other' on onward (zero ▸ away)
  · exact (thirdMeets woven ear (Or.inr mem) (fun both => other' both.symm) (fun both => other both.symm) on
      (segment_symm α p q ▸ onward) (zero ▸ away)).imp_right Or.symm

theorem earInward {x : α × α} {s : α} (edge : Beside r p x) (s0 : 0 < s)
    (inside : InTriangle a b c (x.1 + s * (p.1 - x.1), x.2 + s * (p.2 - x.2))) (s1 : s ≤ 1)
    (zero : turn c a x = 0) (away : 0 ≤ turn c a p) : p = a ∨ p = b ∨ p = c := by
  obtain ⟨before, after⟩ := cornerBeside ear.mem
  have on := segment_symm α x p ▸ onSegment.mpr ⟨s, s0.le, s1, rfl⟩
  rcases escape ear.bulges (besideSides woven before.symm edge) (besideSides woven after edge) on inside
    (by rw [turnAlong, zero]; nlinarith) with within | ⟨back, -⟩
  · exact ear.clear p (besideInside edge).1 within
  · have across := congrArg Prod.fst back
    have up := congrArg Prod.snd back
    simp only [add_eq_left, mul_eq_zero, s0.ne', false_or, sub_eq_zero] at across up
    exact absurd (Prod.ext across up) (besideProper woven edge.symm)

end Ear

theorem startInside {f : α} (positive : 0 < f) (u : α) : ∃ s, 0 < s ∧ s ≤ 1 ∧ 0 ≤ f + s * (u - f) := by
  rcases le_or_gt 0 u with inside | out
  · exact ⟨1, one_pos, le_rfl, by linarith⟩
  · obtain ⟨s, s0, s1, zero, -⟩ := exitAt positive.le out
    refine ⟨s, lt_of_le_of_ne s0 ?_, s1, zero.ge⟩
    rintro rfl
    simp [positive.ne'] at zero

section Sides
variable (woven : Woven r) {a b c d : α × α} (ear : Ear r (a, b, c))
include woven ear

theorem earFirst (corner : (d, a, b) ∈ triples r) (other : d ≠ c) : Within (angle a b) (angle a c) (angle a d) := by
  have left : 0 < turn a b c := ear.bulges
  have turned : 0 < turn c a b := turnRotate c a b ▸ left
  obtain ⟨back, on⟩ := cornerBeside corner
  obtain ⟨-, after⟩ := cornerBeside ear.mem
  have new : a ≠ c := woven.ends _ ear.mem
  have offC : c.2 ≠ a.2 := fun same =>
    new (woven.level _ (besideInside back).1 _ (besideInside after).2 same.symm)
  have offB := besideOff woven on
  have offD := besideOff woven back
  have apart : Apart a c a d := by
    rcases earFree woven ear _ (triplesInside corner).1 with same | same | apart
    · exact absurd (congrArg Prod.fst same) (besideProper woven back)
    · exact absurd (congrArg Prod.fst same) other
    · exact apartTurned apart
  have first : angle a c ≠ angle a b := fun same => by
    have line := angleLine offC offB same
    rw [turnFlip] at line
    exact left.ne' (neg_eq_zero.mp line)
  refine (withinOr first (angleApart offC offD other.symm apart)).resolve_right fun within => ?_
  obtain ⟨third, side⟩ : 0 < turn c a d ∧ 0 < turn a b d := (withinBulge turned offC offB offD).mp within.1
  obtain ⟨s, s0, s1, inside⟩ := startInside (turnRotate a b c ▸ left) (turn b c d)
  have ends : d = a ∨ d = b ∨ d = c := earInward woven ear back.symm s0 (by
    refine ⟨?_, ?_, ?_⟩
    · rw [turnAlong, turnFirst]
      nlinarith
    · rw [turnAlong]
      exact inside
    · rw [turnAlong, turnSecond]
      nlinarith) s1 (turnSecond ..) third.le
  rcases ends with rfl | rfl | rfl
  · exact besideProper woven back rfl
  · exact absurd side (by simp)
  · exact other rfl

theorem earLast (corner : (b, c, d) ∈ triples r) (other : d ≠ a) : Within (angle c d) (angle c a) (angle c b) := by
  have left : 0 < turn a b c := ear.bulges
  have turned : 0 < turn b c a := turnRotate a b c ▸ left
  obtain ⟨back, on⟩ := cornerBeside corner
  obtain ⟨before, -⟩ := cornerBeside ear.mem
  have new : a ≠ c := woven.ends _ ear.mem
  have offA : a.2 ≠ c.2 := fun same =>
    new (woven.level _ (besideInside before).2 _ (besideInside on).1 same)
  have offB := besideOff woven back
  have offD := besideOff woven on
  have apart : Apart c a c d := by
    rcases freeTurned (earFree woven ear) _ (triplesInside corner).2 with same | same | apart
    · exact absurd (congrArg Prod.snd same) other
    · exact absurd (congrArg Prod.snd same) (besideProper woven on)
    · exact apart
  have last : angle c a ≠ angle c b := fun same => by
    have line := angleLine offA offB same
    rw [turnRotate] at line
    exact left.ne' line
  refine (withinOr (angleApart offA offD other.symm apart) last).resolve_right fun within => ?_
  obtain ⟨side, third⟩ : 0 < turn b c d ∧ 0 < turn c a d := (withinBulge turned offB offA offD).mp within.2
  obtain ⟨s, s0, s1, inside⟩ := startInside left (turn a b d)
  have ends : d = a ∨ d = b ∨ d = c := earInward woven ear on.symm s0 (by
    refine ⟨?_, ?_, ?_⟩
    · rw [turnAlong]
      exact inside
    · rw [turnAlong, turnSecond]
      nlinarith
    · rw [turnAlong, turnFirst]
      nlinarith) s1 (turnFirst ..) third.le
  rcases ends with rfl | rfl | rfl
  · exact other rfl
  · exact absurd side (by simp)
  · exact besideProper woven on rfl

end Sides

end SceneStream.Geometry.Plane
