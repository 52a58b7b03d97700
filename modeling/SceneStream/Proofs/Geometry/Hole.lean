import SceneStream.Proofs.Geometry.Bridge

/-! Holes as they are joined: each turned to the right and begun at its leftmost member, and all of them in order from the
left to the right. -/
namespace SceneStream.Geometry

section Loop
variable {β γ : Type} {k r : List β}

def SameLoop (k r : List β) : Prop := k.IsRotated r ∨ k.IsRotated r.reverse

theorem sameMember (same : SameLoop k r) {x : β} : x ∈ k ↔ x ∈ r :=
  same.elim (fun turned => turned.mem_iff) fun turned => turned.mem_iff.trans List.mem_reverse

theorem sameSize (same : SameLoop k r) : k.length = r.length :=
  same.elim (fun turned => turned.perm.length_eq) fun turned => turned.perm.length_eq.trans List.length_reverse

theorem sameMap (f : β → γ) (same : SameLoop k r) : SameLoop (k.map f) (r.map f) :=
  same.imp (·.map f) fun turned => by
    rw [← List.map_reverse]
    exact turned.map f

theorem sameEdge (same : SameLoop k r) {a b : β} (edge : (a, b) ∈ edges k) : (a, b) ∈ edges r ∨ (b, a) ∈ edges r :=
  same.imp (fun turned => (edgesTurned turned).mem_iff.mp edge) fun turned =>
    Plane.reversedEdge ((edgesTurned turned).mem_iff.mp edge)

theorem sameTurned (same : SameLoop k r) : SameLoop r k := by
  refine same.imp (·.symm) fun turned => ?_
  have back := turned.reverse.symm
  rwa [List.reverse_reverse] at back

end Loop

namespace Plane
variable {α : Type} [Field α] [LinearOrder α] {j k r : List (α × α)} {w : α × α}

theorem sameOn [IsStrictOrderedRing α] (same : SameLoop k r) {e : (α × α) × (α × α)} (edge : e ∈ edges k)
    (on : w ∈ segment α e.1 e.2) : ∃ f ∈ edges r, w ∈ segment α f.1 f.2 := by
  rcases sameEdge same edge with forth | back
  · exact ⟨_, forth, on⟩
  · exact ⟨_, back, segment_symm α e.1 e.2 ▸ on⟩

theorem sameOff [IsStrictOrderedRing α] (same : SameLoop k r) (off : Off k w) : Off r w := by
  intro e edge on
  obtain ⟨f, edge', on'⟩ := sameOn (sameTurned same) edge on
  exact off f edge' on'

theorem sameAloof [IsStrictOrderedRing α] (same : SameLoop k r) (aloof : Aloof j r) : Aloof j k := by
  intro e edge f edge' w on onward
  obtain ⟨g, other, on'⟩ := sameOn same edge' onward
  exact aloof e edge g other w on on'

theorem simpleTurned (simple : Simple r) (turned : k.IsRotated r) : Simple k where
  long := turned.perm.length_eq ▸ simple.long
  nodup := turned.perm.nodup_iff.mpr simple.nodup
  apart := fun e first f second =>
    simple.apart e ((edgesTurned turned).mem_iff.mp first) f ((edgesTurned turned).mem_iff.mp second)

theorem sameSimple (same : SameLoop k r) (simple : Simple r) : Simple k :=
  same.elim (simpleTurned simple) (simpleTurned (simpleReversed simple))

omit [LinearOrder α] in
theorem sweptTurned (turned : k.IsRotated r) : sweptArea k = sweptArea r :=
  ((edgesTurned turned).map _).sum_eq

theorem sameTurning [IsStrictOrderedRing α] (same : SameLoop k r) (z : α × α) :
    turning k z = turning r z ∨ turning k z = -turning r z := by
  refine same.imp (fun turned => ((edgesTurned turned).map _).sum_eq) fun turned => ?_
  rw [← turningReversed]
  exact ((edgesTurned turned).map _).sum_eq

end Plane

variable {α : Type} [Field α] [LinearOrder α] [Roots α]

def holeRing (r : Ring α) : Ring α :=
  let r := if 0 < r.area then r.reversed else r
  Ring.startAt r.leftmost r

theorem startTurned {β : Type} (i : Nat) (l : List β) : (Ring.startAt i l).IsRotated l := by
  have turned : (l.drop i ++ l.take i).IsRotated (l.take i ++ l.drop i) := List.isRotated_append
  rwa [List.take_append_drop] at turned

omit [Field α] [LinearOrder α] [Roots α] in
theorem reversedTurned (r : Ring α) : r.reversed.IsRotated r.reverse := by
  cases r with
  | nil => exact .refl _
  | cons a l =>
    rw [List.reverse_cons]
    exact List.isRotated_append (l := [a])

theorem holeSame (r : Ring α) : SameLoop (holeRing r) r := by
  unfold holeRing
  dsimp only
  split
  · exact Or.inr ((startTurned ..).trans (reversedTurned r))
  · exact Or.inl (startTurned ..)

theorem holeBegun {r : Ring α} (some : r ≠ []) : ∃ h m, holeRing r = h :: m ∧ ∀ x ∈ holeRing r, h.u ≤ x.u := by
  have same := holeSame r
  have some' : (if 0 < r.area then r.reversed else r) ≠ [] := by
    split
    · exact fun none => some (List.reverse_eq_nil_iff.mp (List.isRotated_nil_iff'.mp (none ▸ reversedTurned r)).symm)
    · exact some
  obtain ⟨h, m, begun, least⟩ := leftmostStart some'
  refine ⟨h, m, begun, fun x mem => least x ?_⟩
  exact (startTurned ..).mem_iff.mp mem

variable [IsStrictOrderedRing α]

theorem areaSign (r : Ring α) : 0 < r.area ↔ 0 < Plane.sweptArea (r.map Node.place) := by
  rw [areaSwept]
  exact div_pos_iff_of_pos_right (by norm_num : (0 : α) < 1 + 1)

theorem holeKept {r : Ring α} (simple : Plane.Simple (r.map Node.place)) :
    Triangulation.hole? 0 r = some (holeRing r) ∧ Plane.sweptArea ((holeRing r).map Node.place) < 0 := by
  have swept := Plane.simpleSwept simple
  have long : 3 ≤ r.length := by simpa using simple.long
  have some : ¬Scalar.abs r.area ≤ 0 := by
    rw [absExact, abs_nonpos_iff, areaSwept]
    exact div_ne_zero swept (by norm_num : (1 + 1 : α) ≠ 0)
  constructor
  · simp only [Triangulation.hole?, distinctKept long simple.nodup, bind, Option.bind_some, if_neg some]
    rfl
  · unfold holeRing
    dsimp only
    split
    · rename_i left
      rw [Plane.sweptTurned ((startTurned ..).map _), Plane.sweptTurned ((reversedTurned r).map _), List.map_reverse,
        Plane.sweptReversed, neg_lt_zero]
      exact (areaSign r).mp left
    · rename_i right
      rw [Plane.sweptTurned ((startTurned ..).map _)]
      exact lt_of_le_of_ne (not_lt.mp (mt (areaSign r).mpr right)) swept

omit [IsStrictOrderedRing α] in
theorem beforeExact {p q : Node α} {i j : Nat} {l m : List (Node α)} :
    Triangulation.before (i, p :: l) (j, q :: m) = true ↔ p.u < q.u ∨ p.u = q.u ∧ p.v ≤ q.v := by
  have exact : Triangulation.before (i, p :: l) (j, q :: m) =
      if (decide (p.u ≤ q.u) && decide (q.u ≤ p.u)) = true then decide (p.v ≤ q.v) else decide (p.u ≤ q.u) := rfl
  rw [exact]
  simp only [Bool.and_eq_true, decide_eq_true_iff]
  grind

omit [IsStrictOrderedRing α] in
theorem orderedLeft (holes : List (Nat × Ring α)) :
    (holes.mergeSort Triangulation.before).Pairwise fun j k => ∀ h ∈ j.2.head?, ∀ g ∈ k.2.head?, h.u ≤ g.u := by
  have trans (a b c : Nat × Ring α) (first : Triangulation.before a b = true) (second : Triangulation.before b c = true) :
      Triangulation.before a c = true := by
    obtain ⟨i, _ | ⟨p, l⟩⟩ := a
    · rfl
    obtain ⟨j, _ | ⟨q, m⟩⟩ := b
    · cases first
    obtain ⟨k, _ | ⟨r, n⟩⟩ := c
    · cases second
    rw [beforeExact] at *
    grind
  have total (a b : Nat × Ring α) : (Triangulation.before a b || Triangulation.before b a) = true := by
    obtain ⟨i, _ | ⟨p, l⟩⟩ := a
    · rfl
    obtain ⟨j, _ | ⟨q, m⟩⟩ := b
    · rfl
    rw [Bool.or_eq_true, beforeExact, beforeExact]
    grind
  refine (List.pairwise_mergeSort trans total holes).imp fun {a b} order h first g second => ?_
  obtain ⟨i, _ | ⟨p, l⟩⟩ := a
  · cases first
  obtain ⟨j, _ | ⟨q, m⟩⟩ := b
  · cases second
  cases first
  cases second
  exact (beforeExact.mp order).elim le_of_lt fun tie => tie.1.le

end SceneStream.Geometry
