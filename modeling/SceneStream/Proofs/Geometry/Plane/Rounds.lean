import SceneStream.Proofs.Geometry.Plane.Simple

/-! How often a ring winds about a point, counted where the points are. A slight tilt, at which points of one height come
apart, does not change the count, so that it says of points as they are what the winding says of tilted ones. -/
namespace SceneStream.Geometry.Plane

section Order
variable {α : Type} [Field α] [LinearOrder α]

/-- What the way to the right from `z` counts of an edge. One that ends at the height of `z` counts only if it is not
above there. -/
def pass (z p q : α × α) : ℤ :=
  if p.2 < z.2 ∧ z.2 ≤ q.2 ∧ 0 < turn p q z then 1
  else if q.2 < z.2 ∧ z.2 ≤ p.2 ∧ turn p q z < 0 then -1
  else 0

/-- How often a ring winds about a point, positive to the left. -/
def rounds (r : List (α × α)) (z : α × α) : ℤ := ((edges r).map fun e => pass z e.1 e.2).sum

def Below (p q : α × α) : Prop := p.2 < q.2 ∨ p.2 = q.2 ∧ p.1 < q.1

/-- A tilt that puts points of one height above one another from the left to the right, and leaves all others as they
are. -/
def Slight (s : α) (l : List (α × α)) : Prop := ∀ p ∈ l, ∀ q ∈ l, (tilt s p).2 < (tilt s q).2 ↔ Below p q

theorem slightSubset {s : α} {l m : List (α × α)} (slight : Slight s l) (inside : m ⊆ l) : Slight s m :=
  fun p first q second => slight p (inside first) q (inside second)

theorem slightLevel {s : α} {l : List (α × α)} (slight : Slight s l) : Level (l.map (tilt s)) := by
  intro _ first _ second same
  obtain ⟨p, here, rfl⟩ := List.mem_map.mp first
  obtain ⟨q, there, rfl⟩ := List.mem_map.mp second
  have before : ¬Below p q := fun below => same.not_lt ((slight p here q there).mpr below)
  have after : ¬Below q p := fun below => same.not_gt ((slight q there p here).mpr below)
  unfold Below at before after
  have height : p.2 = q.2 := by grind
  exact congrArg (tilt s) (Prod.ext (by grind) height)

end Order

variable {α : Type} [Field α] [LinearOrder α] [IsStrictOrderedRing α]

theorem tiltSlight (l : List (α × α)) : ∃ s, 0 < s ∧ Slight s l := by
  obtain ⟨u, u0, kept⟩ := stayPositive (((l ×ˢ l).filter fun e => e.1.2 < e.2.2).map fun e =>
    (e.2.2 - e.1.2, e.2.1 - e.1.1)) (List.forall_mem_map.mpr fun e mem => by simpa using (List.mem_filter.mp mem).2)
  have above {p q : α × α} (first : p ∈ l) (second : q ∈ l) {s : α} (s0 : 0 < s) (short : s < u) (low : p.2 < q.2) :
      (tilt s p).2 < (tilt s q).2 := by
    have positive := kept s s0 short _ (List.mem_map_of_mem (a := (p, q)) (by simp [first, second, low]))
    simp only [tilt]
    linarith
  refine ⟨u / 2, half_pos u0, fun p first q second => ?_⟩
  have s0 := half_pos u0
  have short := half_lt_self u0
  rcases lt_trichotomy p.2 q.2 with low | same | high
  · exact iff_of_true (above first second s0 short low) (Or.inl low)
  · simp only [tilt, Below, same, lt_irrefl, false_or, true_and, add_lt_add_iff_left]
    exact mul_lt_mul_iff_right₀ s0
  · refine iff_of_false (above second first s0 short high).not_gt ?_
    unfold Below
    grind

theorem belowHalf {p q z : α × α} : (Below p z ∧ Below z q ∧ 0 < turn p q z) ↔
    p.2 < z.2 ∧ z.2 ≤ q.2 ∧ 0 < turn p q z := by
  -- Where a way to the right leaves an edge on the left, it is the lower end that must be below.
  unfold Below turn
  constructor
  · rintro ⟨low, high, left⟩
    have top : z.2 ≤ q.2 := high.elim le_of_lt fun same => same.1.le
    rcases low with low | ⟨same, before⟩
    · exact ⟨low, top, left⟩
    · rw [same, sub_self, mul_zero, zero_sub, neg_pos] at left
      nlinarith
  · rintro ⟨low, high, left⟩
    refine ⟨Or.inl low, high.lt_or_eq.imp id fun same => ⟨same, ?_⟩, left⟩
    rw [same] at left low
    nlinarith

theorem crossingTilt {s : α} {p q z : α × α} {l : List (α × α)} (slight : Slight s l) (first : p ∈ l) (second : q ∈ l)
    (here : z ∈ l) : crossing (tilt s z) (tilt s p) (tilt s q) = pass z p q := by
  have climbs := belowHalf (p := p) (q := q) (z := z)
  have falls := belowHalf (p := q) (q := p) (z := z)
  rw [turnSwap, neg_pos] at falls
  rw [crossing, turnTilt, slight p first z here, slight z here q second, slight q second z here, slight z here p first,
    markSame climbs, markSame falls, pass]
  by_cases climb : p.2 < z.2 ∧ z.2 ≤ q.2 ∧ 0 < turn p q z
  · rw [markTrue climb, markFalse fun fall => climb.2.2.not_gt fall.2.2, if_pos climb, sub_zero]
  · rw [markFalse climb, if_neg climb, mark, zero_sub]
    split <;> simp [*]

/-- Seen at a slight tilt a ring winds about a point as often as it does. -/
theorem roundsTilt {s : α} {r l : List (α × α)} {z : α × α} (slight : Slight s l) (inside : r ⊆ l) (here : z ∈ l) :
    turning (r.map (tilt s)) (tilt s z) = rounds r z := by
  rw [turning, edgesMap, List.map_map, rounds]
  refine congrArg List.sum (List.map_congr_left fun e mem => ?_)
  obtain ⟨first, second⟩ := edgesInside mem
  exact crossingTilt slight (inside first) (inside second) here

end SceneStream.Geometry.Plane
