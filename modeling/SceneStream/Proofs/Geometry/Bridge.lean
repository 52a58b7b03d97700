import SceneStream.Proofs.Geometry.Clip
import SceneStream.Proofs.Geometry.Plane.Around
import SceneStream.Proofs.Geometry.Plane.Meet

/-! What bridges to holes depend on, in exact arithmetic: a hole is joined from a node that no other one of it is to the
left of, and a member of the ring is visible from there if no edge that does not touch it meets the way to it. -/
namespace SceneStream.Geometry

variable {α : Type} [Field α] [LinearOrder α] [Roots α]

theorem leftOrder {a b : Node α} : (Ring.isLeftOf a b = true → a.u ≤ b.u) ∧ (Ring.isLeftOf a b ≠ true → b.u ≤ a.u) := by
  simp only [Ring.isLeftOf, sameExact, Bool.or_eq_true, Bool.and_eq_true, decide_eq_true_iff, not_or, not_lt, ne_eq]
  exact ⟨fun left => left.elim le_of_lt fun tie => tie.1.le, fun right => right.1⟩

theorem leftmostStart {r : Ring α} (some : r ≠ []) : ∃ h m, Ring.startAt r.leftmost r = h :: m ∧ ∀ x ∈ r, h.u ≤ x.u := by
  let pick (best : Node α × Nat) (x : Node α × Nat) : Node α × Nat :=
    if Ring.isLeftOf x.1 best.1 then (x.1, x.2) else (best.1, best.2)
  have least (best x : Node α × Nat) : (pick best x).1.u ≤ best.1.u ∧ (pick best x).1.u ≤ x.1.u := by
    unfold pick
    split
    · exact ⟨leftOrder.1 ‹_›, le_rfl⟩
    · exact ⟨le_rfl, leftOrder.2 ‹_›⟩
  have either (best x : Node α × Nat) : pick best x = best ∨ pick best x = x := (ite_eq_or_eq ..).symm
  obtain ⟨a, l, rfl⟩ := List.exists_cons_of_ne_nil some
  obtain ⟨order, mem⟩ := Ring.searchLeast (f := fun x : Node α × Nat => x.1.u) least either (a, 0) (l.zipIdx 1)
  obtain ⟨best, place⟩ : ∃ best, (l.zipIdx 1).foldl pick (a, 0) = best := ⟨_, rfl⟩
  have here : Ring.leftmost (a :: l) = best.2 := congrArg Prod.snd place
  rw [place, ← List.zipIdx_cons] at order mem
  obtain ⟨inside, node⟩ := List.getElem?_eq_some_iff.mp (List.mem_zipIdx_iff_getElem?.mp mem)
  refine ⟨best.1, _, by rw [here, Ring.startAt, List.drop_eq_getElem_cons inside, node]; rfl, fun x known => ?_⟩
  obtain ⟨i, inside, rfl⟩ := List.getElem_of_mem known
  exact order (_, i) (List.mem_zipIdx_iff_getElem?.mpr (List.getElem?_eq_getElem inside))

variable [IsStrictOrderedRing α]

theorem placeSame {a b : Node α} : a.same 0 b = true ↔ a.place = b.place :=
  (spotSame 0).trans ⟨Plane.tiltSame, congrArg _⟩

theorem betweenExact (a p b : Node α) : Scalar.abs (Node.turn a b p) ≤ 0 ∧ Node.between 0 a p b = true ↔
    p.place ∈ segment α a.place b.place := by
  have less (x : α) : x - 0 = x := sub_zero x
  have more (x : α) : x + 0 = x := add_zero x
  have exact : Node.between 0 a p b = true ↔ min a.u b.u - 0 ≤ p.u ∧ p.u ≤ max a.u b.u + 0 ∧ min a.v b.v - 0 ≤ p.v ∧
      p.v ≤ max a.v b.v + 0 := by
    simp only [Node.between, leastExact, greatestExact, Bool.and_eq_true, decide_eq_true_iff, and_assoc]
  rw [exact, less, less, more, more, absExact, Plane.boxSegment]
  exact and_congr_left' abs_nonpos_iff

omit [IsStrictOrderedRing α] in
theorem straddleExact (x y : α) : Node.straddle 0 x y = true ↔ Plane.Opposite x y := by
  have zero : -(0 : α) = 0 := neg_zero
  have exact : Node.straddle 0 x y = true ↔ 0 < x ∧ y < -0 ∨ x < -0 ∧ 0 < y := by
    simp only [Node.straddle, Bool.or_eq_true, Bool.and_eq_true, decide_eq_true_iff]
  rw [exact, zero]
  rfl

theorem meetExact (a b c d : Node α) : Node.meet 0 a b c d = true ↔
    ∃ w ∈ segment α a.place b.place, w ∈ segment α c.place d.place := by
  rw [Plane.meetIff, Node.meet, Plane.EndsMeet]
  simp only [Bool.or_eq_true, Bool.and_eq_true, decide_eq_true_iff, betweenExact, straddleExact, or_assoc]
  rfl

theorem visibleExact (h t : Node α) (r : Ring α) : Ring.isVisible 0 h t r = true ↔
    ∀ e ∈ edges r, e.1.place ≠ t.place → e.2.place ≠ t.place →
      ∀ w ∈ segment α h.place t.place, w ∉ segment α e.1.place e.2.place := by
  rw [Ring.isVisible, List.all_eq_true]
  refine forall₂_congr fun e _ => ?_
  simp only [Bool.or_eq_true, placeSame, Bool.not_eq_true', ← Bool.not_eq_true, meetExact]
  grind

end SceneStream.Geometry
