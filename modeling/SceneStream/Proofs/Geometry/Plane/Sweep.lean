import SceneStream.Proofs.Geometry.Plane.Winding

/-! A walk along a segment that no edge crosses does not change how often the ring winds about the walker. -/
namespace SceneStream.Geometry.Plane

section Order
variable {α : Type} [Field α] [LinearOrder α]

/-- Vertices that the way from `x` up to `y` leaves on its right, the one that it ends in among them. -/
noncomputable def aside (x y p : α × α) : ℤ := mark (p = y ∨ (x.2 < p.2 ∧ p.2 < y.2 ∧ turn x y p < 0))

theorem asideEnd (x y : α × α) : aside x y y = 1 := markTrue (Or.inl rfl)

theorem asideOther {x y p : α × α} (differ : p ≠ y) :
    aside x y p = mark (x.2 < p.2 ∧ p.2 < y.2 ∧ turn x y p < 0) := markSame (or_iff_right differ)

theorem asideBelow {x y p : α × α} (climb : x.2 < y.2) (low : p.2 ≤ x.2) : aside x y p = 0 :=
  (asideOther fun eq => (eq ▸ low).not_gt climb).trans (markFalse fun h => h.1.not_ge low)

theorem asideAbove {x y p : α × α} (high : y.2 < p.2) : aside x y p = 0 :=
  (asideOther fun eq => (eq ▸ high).false).trans (markFalse fun h => h.2.1.not_gt high)

theorem asideWithin {x y p : α × α} (low : x.2 < p.2) (high : p.2 < y.2) :
    aside x y p = mark (turn x y p < 0) :=
  (asideOther fun eq => (eq ▸ high).false).trans (markSame ⟨fun h => h.2.2, fun h => ⟨low, high, h⟩⟩)

/-- The segment is an edge of the ring, or meets edges of it only in ends of both. -/
def Free (r : List (α × α)) (x y : α × α) : Prop :=
  ∀ e ∈ edges r, e = (x, y) ∨ e = (y, x) ∨ Apart x y e.1 e.2

theorem freeTurned {r : List (α × α)} {x y : α × α} (free : Free r x y) : Free r y x := fun e mem => by
  rcases free e mem with same | same | apart
  · exact Or.inr (Or.inl same)
  · exact Or.inl same
  · exact Or.inr (Or.inr (apartSymm (apartTurned (apartSymm apart))))

theorem sweepAlong {x y : α × α} (differ : x ≠ y) (climb : x.2 < y.2) (s : Bool) :
    passes y (toward y x !s) x y - passes x (toward x y s) x y = aside x y x - aside x y y := by
  have finish : passes y (toward y x !s) x y = -mark (s = false) := by
    refine (if_neg differ).trans ((if_pos rfl).trans ?_)
    rw [markSame (q := s = false) (by simp [Germ.Past, toward])]
  have start : passes x (toward x y s) x y = mark (s = true) :=
    (if_pos rfl).trans (markSame (by simp [Germ.Past, toward]))
  rw [start, finish, asideBelow climb le_rfl, asideEnd, ← markSame (p := ¬s = true) (by simp), markNot]
  ring

section
variable {x y p q : α × α} (climb : x.2 < y.2) (rise : p.2 < q.2)
include climb rise

theorem sweepToFoot (s t : Bool) (ends : q = x) :
    passes y (toward y x t) p q - passes x (toward x y s) p q = aside x y p - aside x y q := by
  -- The edge comes from below to the foot of the way.
  subst ends
  have after : angle q y < angle q p := angleAcross climb rise
  have start : passes q (toward q y s) p q = 0 := by
    refine (if_neg fun eq => (eq ▸ rise).false).trans ((if_pos rfl).trans ?_)
    rw [markFalse (mt (pastToward s after.ne').mp after.not_gt), neg_zero]
  have finish : passes y (toward y q t) p q = crossing y p q :=
    (if_neg fun eq => (eq ▸ rise).not_gt climb).trans (if_neg fun eq => (eq ▸ climb).false)
  rw [start, finish, crossingOutside rise (Or.inr climb.le), asideBelow climb rise.le, asideBelow climb le_rfl]

theorem sweepHead (s t : Bool) (begins : p = y) :
    passes y (toward y x t) p q - passes x (toward x y s) p q = aside x y p - aside x y q := by
  -- The edge leaves the head of the way upward.
  subst begins
  have before : angle p q < angle p x := angleAcross rise climb
  have finish : passes p (toward p x t) p q = 1 :=
    (if_pos rfl).trans (markTrue ((pastToward t before.ne).mpr before))
  have start : passes x (toward x p s) p q = crossing x p q :=
    (if_neg fun eq => (eq ▸ climb).false).trans (if_neg fun eq => (eq ▸ rise).not_gt climb)
  rw [start, finish, crossingOutside rise (Or.inl climb.le), asideEnd, asideAbove rise]

end
end Order

variable {α : Type} [Field α] [LinearOrder α] [IsStrictOrderedRing α]

section
variable {x y p q : α × α} (climb : x.2 < y.2) (rise : p.2 < q.2) (apart : Apart x y p q)
include climb rise apart

theorem sweepFoot (s t : Bool) (begins : p = x) (high : q.2 ≠ y.2) :
    passes y (toward y x t) p q - passes x (toward x y s) p q = aside x y p - aside x y q := by
  -- The edge leaves the foot of the way.
  subst begins
  have differ : y ≠ q := fun eq => high (eq ▸ rfl)
  have sides : 0 < (y.2 - p.2) * (q.2 - p.2) := mul_pos (sub_pos.mpr climb) (sub_pos.mpr rise)
  have other : angle p q ≠ angle p y := fun eq =>
    apartTurn sides differ apart (angleLine climb.ne' rise.ne' eq.symm)
  have right : angle p q < angle p y ↔ turn p y q < 0 := by
    rw [angleSame (by simp [climb.not_gt, rise.not_gt]) rise.ne' climb.ne', turnFlip, neg_pos]
  have start : passes p (toward p y s) p q = mark (turn p y q < 0) :=
    (if_pos rfl).trans (markSame ((pastToward s other).trans right))
  have finish : passes y (toward y p t) p q = crossing y p q :=
    (if_neg fun eq => (eq ▸ climb).false).trans (if_neg differ.symm)
  rw [start, finish, asideBelow climb le_rfl]
  rcases lt_or_gt_of_ne high with below | above
  · rw [crossingOutside rise (Or.inr below.le), asideWithin rise below]
  · rw [crossingWithin climb above, asideAbove above, turnFlip, markSame neg_pos, sub_self, sub_self]

theorem sweepToHead (s t : Bool) (ends : q = y) (low : p.2 ≠ x.2) :
    passes y (toward y x t) p q - passes x (toward x y s) p q = aside x y p - aside x y q := by
  -- The edge comes to the head of the way.
  subst ends
  have differ : x ≠ p := fun eq => low (eq ▸ rfl)
  have sides : 0 < (x.2 - q.2) * (p.2 - q.2) :=
    mul_pos_of_neg_of_neg (sub_neg.mpr climb) (sub_neg.mpr rise)
  have off : turn q x p ≠ 0 := by
    refine apartTurn sides differ fun w first second => ?_
    rw [segment_symm] at first second
    exact (apart w first second).imp Or.symm Or.symm
  have other : angle q p ≠ angle q x := fun eq => off (angleLine climb.ne rise.ne eq.symm)
  rw [turnSwap, neg_ne_zero] at off
  have left : angle q p < angle q x ↔ ¬turn x q p < 0 := by
    rw [angleSame (by simp [climb, rise]) rise.ne climb.ne, turnFlip, neg_pos, turnSwap x q p, neg_lt_zero, not_lt]
    exact ⟨le_of_lt, fun h => lt_of_le_of_ne h off.symm⟩
  have finish : passes q (toward q x t) p q = mark (turn x q p < 0) - 1 := by
    refine (if_neg fun eq => (eq ▸ rise).false).trans ((if_pos rfl).trans ?_)
    rw [markSame ((pastToward t other).trans left), markNot, neg_sub]
  have start : passes x (toward x q s) p q = crossing x p q :=
    (if_neg differ.symm).trans (if_neg fun eq => (eq ▸ climb).false)
  rw [start, finish, asideEnd]
  rcases lt_or_gt_of_ne low with below | above
  · have flip : 0 < turn p q x ↔ turn x q p < 0 := by rw [turnRotate, turnSwap, neg_pos, ← turnRotate]
    rw [crossingWithin below climb, asideBelow climb below.le, markSame flip]
    ring
  · rw [crossingOutside rise (Or.inl above.le), asideWithin above rise, sub_zero]

theorem sweepPast (s t : Bool) (far : p.2 ≠ x.2 ∧ p.2 ≠ y.2 ∧ q.2 ≠ x.2 ∧ q.2 ≠ y.2) :
    passes y (toward y x t) p q - passes x (toward x y s) p q = aside x y p - aside x y q := by
  -- The edge has no end in common with the way.
  have away {a b : α × α} (h : a.2 ≠ b.2) : a ≠ b := fun eq => h (eq ▸ rfl)
  obtain ⟨px, py, qx, qy⟩ := far
  have start : passes x (toward x y s) p q = crossing x p q := (if_neg (away px)).trans (if_neg (away qx))
  have finish : passes y (toward y x t) p q = crossing y p q := (if_neg (away py)).trans (if_neg (away qy))
  have clear : ∀ u, x.2 ≤ u → u ≤ y.2 → p.2 ≤ u → u ≤ q.2 → reach x y u ≠ reach p q u := by
    intro u low high low' high' same
    have common := apart (reach x y u, u) (reachMem climb low high) (same ▸ reachMem rise low' high')
    rcases common with ⟨first | first, second | second⟩
    · exact px (congrArg Prod.snd (second.symm.trans first))
    · exact qx (congrArg Prod.snd (second.symm.trans first))
    · exact py (congrArg Prod.snd (second.symm.trans first))
    · exact qy (congrArg Prod.snd (second.symm.trans first))
  rw [start, finish]
  rcases lt_or_gt_of_ne qx with below | qx
  · rw [crossingOutside rise (Or.inr (below.trans climb).le), crossingOutside rise (Or.inr below.le),
      asideBelow climb (rise.trans below).le, asideBelow climb below.le]
  rcases lt_or_gt_of_ne py with py | above
  swap
  · rw [crossingOutside rise (Or.inl above.le), crossingOutside rise (Or.inl (climb.trans above).le),
      asideAbove above, asideAbove (above.trans rise)]
  rcases lt_or_gt_of_ne px with px | px <;> rcases lt_or_gt_of_ne qy with qy | qy
  · have side := sameSide qx.le fun u low high => clear u low (high.trans qy.le) (px.le.trans low) high
    rw [reachFirst, reachLast rise, ← leftReach rise, ← rightReach climb] at side
    rw [crossingOutside rise (Or.inr qy.le), crossingWithin px qx, asideBelow climb px.le, asideWithin qx qy,
      markSame side]
  · have side := sameSide climb.le fun u low high => clear u low high (px.le.trans low) (high.trans qy.le)
    rw [reachFirst, reachLast climb, ← leftReach rise, ← leftReach rise] at side
    rw [crossingWithin py qy, crossingWithin px qx, asideBelow climb px.le, asideAbove qy, markSame side,
      sub_self, sub_self]
  · have side := sameSide rise.le fun u low high => clear u (px.le.trans low) (high.trans qy.le) low high
    rw [reachFirst, reachLast rise, ← rightReach climb, ← rightReach climb] at side
    rw [crossingOutside rise (Or.inr qy.le), crossingOutside rise (Or.inl px.le), asideWithin px py,
      asideWithin qx qy, markSame side, sub_self, sub_self]
  · have side := sameSide py.le fun u low high => clear u (px.le.trans low) high low (high.trans qy.le)
    rw [reachFirst, reachLast climb, ← rightReach climb, ← leftReach rise] at side
    rw [crossingWithin py qy, crossingOutside rise (Or.inl px.le), asideWithin px py, asideAbove qy, markSame side]

end

theorem sweepClimb {x y p q : α × α} (climb : x.2 < y.2) (rise : p.2 < q.2) (apart : Apart x y p q)
    (level : Level [x, y, p, q]) (s t : Bool) :
    passes y (toward y x t) p q - passes x (toward x y s) p q = aside x y p - aside x y q := by
  by_cases px : p.2 = x.2
  · have begins : p = x := level p (by simp) x (by simp) px
    by_cases qy : q.2 = y.2
    · have ends : q = y := level q (by simp) y (by simp) qy
      subst begins ends
      have half := reachMem climb (t := (p.2 + q.2) / 2) (by linarith) (by linarith)
      rcases (apart _ half half).1 with eq | eq <;> have := congrArg Prod.snd eq <;> dsimp only at this <;> linarith
    · exact sweepFoot climb rise apart s t begins qy
  · by_cases qy : q.2 = y.2
    · exact sweepToHead climb rise apart s t (level q (by simp) y (by simp) qy) px
    · by_cases py : p.2 = y.2
      · exact sweepHead climb rise s t (level p (by simp) y (by simp) py)
      · by_cases qx : q.2 = x.2
        · exact sweepToFoot climb rise s t (level q (by simp) x (by simp) qx)
        · exact sweepPast climb rise apart s t ⟨px, py, qx, qy⟩

theorem sweepEdge {x y p q : α × α} (climb : x.2 < y.2) (proper : p ≠ q) (apart : Apart x y p q)
    (level : Level [x, y, p, q]) (s t : Bool) :
    passes y (toward y x t) p q - passes x (toward x y s) p q = aside x y p - aside x y q := by
  have differ : p.2 ≠ q.2 := fun eq => proper (level p (by simp) q (by simp) eq)
  rcases lt_or_gt_of_ne differ with rise | fall
  · exact sweepClimb climb rise apart level s t
  · have turned := sweepClimb climb fall (apartTurned apart)
      (fun a first b second => level a (by grind) b (by grind)) s t
    rw [passesReversed _ proper, passesReversed _ proper] at turned
    linarith

theorem sweepUp {r : List (α × α)} {x y : α × α} (climb : x.2 < y.2) (proper : ∀ e ∈ edges r, e.1 ≠ e.2)
    (level : Level (x :: y :: r)) (free : Free r x y) (s : Bool) :
    winding r y (toward y x !s) = winding r x (toward x y s) := by
  have differ : x ≠ y := fun eq => (eq ▸ climb).false
  have each : ∀ e ∈ edges r, passes y (toward y x !s) e.1 e.2 + aside x y e.2 =
      passes x (toward x y s) e.1 e.2 + aside x y e.1 := by
    intro e mem
    obtain ⟨first, second⟩ := edgesInside mem
    rcases free e mem with rfl | rfl | apart
    · linarith [sweepAlong differ climb s]
    · rw [passesReversed _ differ, passesReversed _ differ]
      linarith [sweepAlong differ climb s]
    · linarith [sweepEdge climb (proper e mem) apart (fun a one b two => level a (by grind) b (by grind)) s !s]
  have total := congrArg List.sum (List.map_congr_left each)
  rw [List.sum_map_add, List.sum_map_add, edgesBalance (aside x y)] at total
  exact add_right_cancel total

/-- On either side of a free segment the winding is the same at both of its ends. -/
theorem sweep {r : List (α × α)} {x y : α × α} (differ : x ≠ y) (proper : ∀ e ∈ edges r, e.1 ≠ e.2)
    (level : Level (x :: y :: r)) (free : Free r x y) (s : Bool) :
    winding r y (toward y x !s) = winding r x (toward x y s) := by
  have apart : x.2 ≠ y.2 := fun eq => differ (level x (by simp) y (by simp) eq)
  rcases lt_or_gt_of_ne apart with climb | fall
  · exact sweepUp climb proper level free s
  · have back := sweepUp fall proper (fun a one b two => level a (by grind) b (by grind)) (freeTurned free) !s
    rw [Bool.not_not] at back
    exact back.symm

end SceneStream.Geometry.Plane
