import SceneStream.Proofs.Geometry.Triangulation

/-! How many triangles a polygon can have: each vertex that is cut off gives one at most, and a bridge to a hole
adds two vertices to the ring. -/
namespace SceneStream.Geometry
open SceneStream.Outcome (okBind)
variable {α : Type}

namespace Ring

theorem startLength {β : Type} (i : Nat) (l : List β) : (startAt i l).length = l.length := by
  simp only [startAt, List.length_append, List.length_drop, List.length_take]
  omega

theorem reversedLength (r : Ring α) : r.reversed.length = r.length := by
  cases r <;> simp [reversed]

theorem joinLength (outer : Ring α) (i : Nat) (hole : Ring α) :
    outer.length ≤ (join outer i hole).length ∧ (join outer i hole).length ≤ outer.length + (hole.length + 2) := by
  have same := startLength i outer
  unfold join
  split
  · rename_i a l b m start
    rw [start] at same
    simp only [List.length_append, List.length_cons] at same ⊢
    omega
  · omega

variable [Scalar α]

theorem collapseLength (eps : α) (a : Node α) (l : List (Node α)) : (collapse eps a l).length ≤ l.length + 1 := by
  induction l generalizing a with
  | nil => exact Nat.le_refl _
  | cons b l ih =>
    unfold collapse
    split
    · exact Nat.le_succ_of_le (ih a)
    · exact Nat.succ_le_succ (ih b)

theorem closeLength (eps : α) (r : Ring α) : (close eps r).length ≤ r.length := by
  unfold close
  split
  · exact Nat.le_refl _
  · split
    · split
      · simp only [List.length_cons, List.length_dropLast]
        omega
      · exact Nat.le_refl _
    · simp

theorem distinctLength {eps : α} {r kept : Ring α} (found : r.distinct? eps = some kept) :
    3 ≤ kept.length ∧ kept.length ≤ r.length := by
  unfold distinct? at found
  split at found
  · cases found
  · rename_i a l
    dsimp only at found
    split at found
    · rename_i long
      cases found
      exact ⟨long, Nat.le_trans (closeLength eps _) (collapseLength eps a l)⟩
    · cases found

theorem clipLength {eps : α} {n : Nat} {r : Ring α} {ts : List Triangle} (done : clip eps n r = .ok ts) :
    ts.length ≤ n + 1 := by
  induction n generalizing r ts with
  | zero =>
    cases done
    unfold lastTriangle
    split
    · split <;> simp
    · simp
  | succ n ih =>
    unfold clip at done
    dsimp only at done
    split at done
    · rename_i i ear
      cases rest : clip eps n (r.eraseIdx i) with
      | error left =>
        rw [rest] at done
        cases done
      | ok cut =>
        rw [rest] at done
        cases done
        have few := ih rest
        have one : ((corners r)[i]?.map Corner.triangle).toList.length ≤ 1 := by
          cases (corners r)[i]? <;> simp
        rw [List.length_append]
        omega
    · split at done
      · exact Nat.le_succ_of_le (ih done)
      · cases done

end Ring

namespace Triangulation
open SceneStream.Geometry.Ring

theorem piecesLength {β : Type} {sizes : List Nat} {l : List β} (whole : sizes.sum ≤ l.length) :
    (pieces sizes l).map List.length = sizes := by
  induction sizes generalizing l with
  | nil => rfl
  | cons n sizes ih =>
    rw [List.sum_cons] at whole
    rw [pieces, List.map_cons, ih (by rw [List.length_drop]; omega), List.length_take, Nat.min_eq_left (by omega)]

def added (holes : List (Nat × Ring α)) : Nat := (holes.map fun h => h.2.length + 2).sum

theorem addedNumbered (holes : List (Ring α)) (i : Nat) :
    added ((holes.zipIdx i).map fun (r, i) => (i, r)) = (holes.map List.length).sum + 2 * holes.length := by
  induction holes generalizing i with
  | nil => rfl
  | cons r holes ih =>
    have rest := ih (i + 1)
    simp only [added, List.zipIdx_cons, List.map_cons, List.sum_cons, List.length_cons] at rest ⊢
    omega

variable [Scalar α]

theorem holeLength {eps : α} {r kept : Ring α} (found : hole? eps r = some kept) : kept.length ≤ r.length := by
  simp only [hole?, bind, Option.bind_eq_some_iff] at found
  obtain ⟨d, distinct, rest⟩ := found
  have short := (distinctLength distinct).2
  split at rest
  · cases rest
  · cases rest
    rw [startLength]
    split
    · exact (reversedLength d).symm ▸ short
    · exact short

theorem attachLength {eps : α} {holes : List (Nat × Ring α)} {outer joined : Ring α}
    (done : holes.foldlM (attach eps) outer = .ok joined) :
    outer.length ≤ joined.length ∧ joined.length ≤ outer.length + added holes := by
  induction holes generalizing outer with
  | nil =>
    cases done
    exact ⟨Nat.le_refl _, Nat.le_add_right ..⟩
  | cons h holes ih =>
    obtain ⟨next, first, rest⟩ := okBind done
    have step : outer.length ≤ next.length ∧ next.length ≤ outer.length + (h.2.length + 2) := by
      unfold attach at first
      split at first
      · cases first
        omega
      · split at first
        · cases first
          exact joinLength ..
        · cases first
    have later := ih rest
    rw [added, List.map_cons, List.sum_cons, ← added]
    omega

theorem keptLength (eps : α) (holes : List (Nat × Ring α)) :
    added (holes.filterMap fun (i, r) => (hole? eps r).map (i, ·)) ≤ added holes := by
  induction holes with
  | nil => exact Nat.le_refl _
  | cons h holes ih =>
    obtain ⟨i, r⟩ := h
    have whole : added ((i, r) :: holes) = r.length + 2 + added holes := rfl
    cases found : hole? eps r with
    | none =>
      simp only [List.filterMap_cons, found, Option.map_none, whole]
      exact Nat.le_trans ih (Nat.le_add_left ..)
    | some kept =>
      simp only [List.filterMap_cons, found, Option.map_some, whole]
      exact Nat.add_le_add (Nat.succ_le_succ (Nat.succ_le_succ (holeLength found))) ih

theorem ringsLength {eps : α} {outer : Ring α} {holes : List (Nat × Ring α)} {ts : List Triangle}
    (done : ofRings eps outer holes = .ok ts) : 1 ≤ ts.length ∧ ts.length + 2 ≤ outer.length + added holes := by
  obtain ⟨some, ring, whole, clipped⟩ := ringsClipped done
  obtain ⟨kept, found, attached⟩ := joinedParts whole
  have size := distinctLength found
  have length := attachLength attached
  have order : added ((holes.filterMap fun (i, r) => (hole? eps r).map (i, ·)).mergeSort before) =
      added (holes.filterMap fun (i, r) => (hole? eps r).map (i, ·)) :=
    ((List.mergeSort_perm _ _).map _).sum_nat
  rw [order] at length
  have fewer := keptLength eps holes
  have few := clipLength clipped
  have any := List.length_pos_iff.mpr some
  omega

end Triangulation

/-- What the triangles of a polygon are: some, and not too many, of its own points, each turning to the left in
the plane that the polygon is laid into. -/
structure Bounded {α : Type} [Scalar α] (eps : α) (points : List (Vec α)) (loops : List Nat) (ts : List Triangle) :
    Prop where
  any : 1 ≤ ts.length
  few : ts.length + 2 ≤ points.length + 2 * (loops.length - 1)
  inside : ∀ i ∈ ts.flatMap Triangle.toList, i < points.length
  turned : ∀ t ∈ ts, ∃ a b c, points[t.a]? = some a ∧ points[t.b]? = some b ∧ points[t.c]? = some c ∧
    let plane := Triangulation.Plane.of (loopNormal (points.take (loops.headD 0)))
    eps < Node.turn (plane.project t.a a) (plane.project t.b b) (plane.project t.c c)

theorem triangulateBounded [Scalar α] {eps : α} {points : List (Vec α)} {loops : List Nat} {ts : List Triangle}
    (done : triangulate eps points loops = .ok ts) : Bounded eps points loops ts := by
  obtain ⟨same, -, outer, holes, cut, rest⟩ := triangulateParts done
  obtain ⟨any, few⟩ := Triangulation.ringsLength rest
  refine ⟨any, ?_, (triangulateOk done).inside, fun t mem => ?_⟩
  · have whole : loops.sum ≤
        (Triangulation.projected (.of (loopNormal (points.take (loops.headD 0)))) points).length := by
      simp [Triangulation.projected, same]
    have sizes := Triangulation.piecesLength whole
    rw [cut, List.map_cons] at sizes
    rw [Triangulation.addedNumbered] at few
    rw [← same, ← sizes, List.sum_cons, List.length_cons, List.length_map]
    omega
  · obtain ⟨a, first, b, second, c, third, rfl, turn⟩ := Triangulation.piecesTurned cut rest t mem
    obtain ⟨p, pPlace, pSame⟩ := Triangulation.projectedIndex first
    obtain ⟨q, qPlace, qSame⟩ := Triangulation.projectedIndex second
    obtain ⟨r, rPlace, rSame⟩ := Triangulation.projectedIndex third
    refine ⟨p, q, r, pPlace, qPlace, rPlace, ?_⟩
    dsimp only
    rw [← pSame, ← qSame, ← rSame]
    exact turn

end SceneStream.Geometry
