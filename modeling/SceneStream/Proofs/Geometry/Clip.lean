import SceneStream.Proofs.Geometry.Plane.Simple
import SceneStream.Proofs.Geometry.Scalar
import SceneStream.Proofs.Geometry.Triangulation

/-! Clipping in exact arithmetic. The test for an ear, which looks at corners only that do not bulge, finds the ears of a
filled ring and nothing else, so that there is always one to be cut off. -/
namespace SceneStream.Geometry

section Corners
variable {α : Type}

def cornerOf (t : Node α × Node α × Node α) : Ring.Corner α := ⟨t.1, t.2.1, t.2.2⟩

theorem cornersTriples (r : Ring α) : Ring.corners r = (triples r).map cornerOf := rfl

variable [Scalar α]

theorem earAround {eps : α} {r : Ring α} {i : Nat} {a b c : Node α} {k : List (Node α)} (inside : i ≤ r.length)
    (begun : r.rotate i = b :: c :: k ++ [a]) : Ring.isEar eps (Ring.corners r) i (cornerOf (a, b, c)) =
      (turns (c :: k ++ [a])).all fun u => !(cornerOf (a, b, c)).blockedBy eps (cornerOf u) := by
  obtain ⟨x, m, y, -, around⟩ := triplesAround a b c k
  have begin : Ring.startAt i (Ring.corners r) = (triples (r.rotate i)).map cornerOf := by
    rw [cornersTriples, startRotate (by simpa [triplesSize] using inside), triplesRotate, List.map_rotate]
  rw [Ring.isEar, begin, begun, around]
  simp [List.all_map, Function.comp_def]

end Corners

variable {α : Type} [Field α] [LinearOrder α] [Roots α]

def Node.place (a : Node α) : α × α := (a.u, a.v)

def Node.spot (s : α) (a : Node α) : α × α := Plane.tilt s a.place

theorem spotTurn (s : α) (a b c : Node α) : Plane.turn (a.spot s) (b.spot s) (c.spot s) = Node.turn a b c :=
  Plane.turnTilt s ..

theorem areaSwept (r : Ring α) : r.area = Plane.sweptArea (r.map Node.place) / (1 + 1) := by
  have sum (es : List (Node α × Node α)) (x : α) : es.foldl (fun s e => s + (e.1.u * e.2.v - e.2.u * e.1.v)) x =
      x + (es.map fun e => e.1.u * e.2.v - e.2.u * e.1.v).sum := by
    induction es generalizing x with
    | nil => exact (add_zero x).symm
    | cons e es ih => rw [List.foldl_cons, ih, List.map_cons, List.sum_cons, add_assoc]
  rw [Plane.sweptArea, edgesMap, List.map_map]
  exact congrArg (· / (1 + 1)) ((sum (edges r) 0).trans (zero_add _))

theorem clippedSwept {s : α} {r : Ring α} {ts : List (Node α × Node α × Node α)}
    (clipped : Plane.Clipped (Node.spot s) r ts) :
    Plane.sweptArea (r.map Node.place) = (ts.map fun t => Node.turn t.1 t.2.1 t.2.2).sum := by
  rw [Plane.sweptArea, edgesMap, List.map_map, Plane.clippedSum _ (fun _ _ => by simp) clipped]
  refine congrArg List.sum (List.map_congr_left fun t _ => ?_)
  rw [← List.map_map, ← edgesMap]
  exact Plane.sweptTriangle ..

variable [IsStrictOrderedRing α]

theorem spotSame (s : α) {a b : Node α} : a.same 0 b = true ↔ a.spot s = b.spot s := by
  have zero (x : α) : Scalar.abs x ≤ 0 ↔ x = 0 := by rw [absExact, abs_nonpos_iff]
  have same : a.same 0 b = true ↔ a.u = b.u ∧ a.v = b.v := by
    rw [Node.same, Bool.and_eq_true, decide_eq_true_iff, decide_eq_true_iff]
    exact and_congr ((zero _).trans sub_eq_zero) ((zero _).trans sub_eq_zero)
  rw [same]
  exact ⟨fun both => congrArg (Plane.tilt s) (Prod.ext both.1 both.2), fun eq => Prod.ext_iff.mp (Plane.tiltSame eq)⟩

omit [IsStrictOrderedRing α] in
theorem spotIn (s : α) (a b c p : Node α) :
    Node.inTriangle 0 a b c p = true ↔ Plane.InTriangle (a.spot s) (b.spot s) (c.spot s) (p.spot s) := by
  have zero (x : α) : -(0 : α) ≤ x ↔ 0 ≤ x := by rw [neg_zero]
  rw [Node.inTriangle, Bool.and_eq_true, Bool.and_eq_true, decide_eq_true_iff, decide_eq_true_iff, decide_eq_true_iff,
    Plane.InTriangle, spotTurn, spotTurn, spotTurn, and_assoc]
  exact and_congr (zero _) (and_congr (zero _) (zero _))

theorem spotBlocked (s : α) (t u : Node α × Node α × Node α) : (cornerOf t).blockedBy 0 (cornerOf u) = true ↔
    (u.2.1.spot s ≠ t.1.spot s ∧ u.2.1.spot s ≠ t.2.1.spot s ∧ u.2.1.spot s ≠ t.2.2.spot s) ∧
      Plane.InTriangle (t.1.spot s) (t.2.1.spot s) (t.2.2.spot s) (u.2.1.spot s) ∧
        Plane.turn (u.1.spot s) (u.2.1.spot s) (u.2.2.spot s) ≤ 0 := by
  rw [Ring.Corner.blockedBy, Bool.and_eq_true, Bool.and_eq_true, decide_eq_true_iff, Bool.not_eq_true',
    Bool.or_eq_false_iff, Bool.or_eq_false_iff, ← Bool.not_eq_true, ← Bool.not_eq_true, ← Bool.not_eq_true, spotSame s,
    spotSame s, spotSame s, spotIn s, spotTurn]
  simp only [and_assoc]
  rfl

section Ear
variable {s : α} {r : Ring α} (filled : Plane.Filled (r.map (Node.spot s)))
include filled

theorem earIff {i : Nat} {a b c : Node α} {k : List (Node α)} (inside : i < r.length)
    (begun : r.rotate i = b :: c :: k ++ [a]) (left : 0 < Node.turn a b c) :
    Ring.isEar 0 (Ring.corners r) i (cornerOf (a, b, c)) = true ↔
      Plane.Ear (r.map (Node.spot s)) (a.spot s, b.spot s, c.spot s) := by
  obtain ⟨x, m, y, -, around⟩ := triplesAround a b c k
  have corners (t) : t ∈ triples r ↔ t ∈ triples (b :: c :: k ++ [a]) := by
    rw [← begun, triplesRotate, List.mem_rotate]
  have known (t : Node α × Node α × Node α) (mem : t ∈ triples r) :
      (t.1.spot s, t.2.1.spot s, t.2.2.spot s) ∈ triples (r.map (Node.spot s)) := by
    rw [triplesMap]
    exact List.mem_map_of_mem mem
  have corner : (a, b, c) ∈ triples r := (corners _).mpr (around ▸ List.mem_cons_self ..)
  have bulges : 0 < Plane.turn (a.spot s) (b.spot s) (c.spot s) := (spotTurn s a b c).symm ▸ left
  rw [earAround inside.le begun, List.all_eq_true]
  simp only [Bool.not_eq_true', ← Bool.not_eq_true, spotBlocked s (a, b, c)]
  constructor
  · refine fun clear => Plane.earFrom filled (known _ corner) bulges fun u mem within reflex => ?_
    rw [triplesMap] at mem
    obtain ⟨u, here, rfl⟩ := List.mem_map.mp mem
    rw [corners, around, List.mem_cons, List.mem_cons, List.mem_append, List.mem_singleton] at here
    rcases here with rfl | rfl | inner | rfl
    · exact Or.inr (Or.inl rfl)
    · exact Or.inr (Or.inr rfl)
    · by_contra other
      rw [not_or, not_or] at other
      exact clear u inner ⟨other, within, reflex⟩
    · exact Or.inl rfl
  · rintro ear u inner ⟨other, within, -⟩
    have mem : u ∈ triples r := (corners u).mpr
      (around ▸ List.mem_cons_of_mem _ (List.mem_cons_of_mem _ (List.mem_append_left _ inner)))
    rcases ear.clear _ (Plane.besideInside (Plane.cornerBeside (known u mem)).1).1 within with same | same | same
    · exact other.1 same
    · exact other.2.1 same
    · exact other.2.2 same

theorem earNext (long : 3 ≤ r.length) : ∃ i, ∃ t : Node α × Node α × Node α, ∃ k,
    Ring.ear? 0 (Ring.corners r) = some i ∧ (Ring.corners r)[i]? = some (cornerOf t) ∧ i < r.length ∧
      r.rotate i = t.2.1 :: t.2.2 :: k ++ [t.1] ∧
      Plane.Ear (r.map (Node.spot s)) (t.1.spot s, t.2.1.spot s, t.2.2.spot s) := by
  obtain ⟨t, ear⟩ := Plane.earExists filled (by simpa using long)
  obtain ⟨⟨a, b, c⟩, corner, rfl⟩ := List.mem_map.mp (triplesMap (Node.spot s) r ▸ ear.mem)
  obtain ⟨i, inside, here⟩ := List.getElem_of_mem corner
  have mem : ((a, b, c), i) ∈ (triples r).zipIdx :=
    List.mem_zipIdx_iff_getElem?.mpr (here ▸ List.getElem?_eq_getElem inside)
  have numbered : (cornerOf (a, b, c), i) ∈ (Ring.corners r).zipIdx := by
    rw [cornersTriples, List.zipIdx_map]
    exact List.mem_map_of_mem mem
  obtain ⟨k, begun⟩ := triplesBegun long mem
  have left : 0 < Node.turn a b c := spotTurn s a b c ▸ ear.bulges
  obtain ⟨j, found⟩ := Ring.earFound (fun _ => rfl) numbered left
    ((earIff filled (triplesSize r ▸ inside) begun left).mpr ear)
  obtain ⟨x, place, left, chosen⟩ := Ring.earChosen found
  rw [cornersTriples, List.getElem?_map] at place
  obtain ⟨u, here, rfl⟩ := Option.map_eq_some_iff.mp place
  obtain ⟨m, begun⟩ := triplesBegun long (List.mem_zipIdx_iff_getElem?.mpr here)
  have inside := triplesSize r ▸ (List.getElem?_eq_some_iff.mp here).1
  exact ⟨j, u, m, found, by rw [cornersTriples, List.getElem?_map, here]; rfl, inside, begun,
    (earIff filled inside begun left).mp chosen⟩

end Ear

theorem clipFilled {s : α} {n : Nat} {r : Ring α} (long : r.length = n + 3)
    (filled : Plane.Filled (r.map (Node.spot s))) : ∃ ts,
      Ring.clip 0 n r = .ok (ts.map fun t => (cornerOf t).triangle) ∧ Plane.Clipped (Node.spot s) r ts := by
  induction n generalizing r with
  | zero =>
    obtain ⟨a, b, c, rfl⟩ := List.length_eq_three.mp long
    have left : 0 < Plane.turn (c.spot s) (a.spot s) (b.spot s) := by
      rw [Plane.turnRotate]
      exact Plane.triangleLeft filled
    refine ⟨[(c, a, b)], ?_, .last (List.isRotated_append (l := [c])) left⟩
    rw [spotTurn] at left
    exact congrArg Except.ok (if_pos left)
  | succ n ih =>
    obtain ⟨i, ⟨a, b, c⟩, k, found, place, inside, begun, ear⟩ := earNext filled (by omega)
    have size := congrArg List.length begun
    rcases k with _ | ⟨d, k⟩
    · simp [long] at size
    have turned : (a :: b :: c :: d :: k).IsRotated r :=
      (List.isRotated_append (l := [a])).trans (begun ▸ List.IsRotated.forall r i)
    have kept := eraseTurned inside begun
    have left := Plane.filledTurned (kept.map _).symm (Plane.earFilled turned ear filled).2
    obtain ⟨ts, done, rest⟩ := ih (by rw [List.length_eraseIdx, if_pos inside]; omega) left
    refine ⟨(a, b, c) :: ts, ?_, .ear turned ear kept rest⟩
    simp only [Ring.clip, found, place, done]
    rfl

theorem distinctKept {r : Ring α} (long : 3 ≤ r.length) (apart : (r.map Node.place).Nodup) : r.distinct? 0 = some r := by
  have differ {a b : Node α} (other : a.place ≠ b.place) : a.same 0 b = false :=
    Bool.eq_false_iff.mpr fun same => other (Plane.tiltSame ((spotSame 0).mp same))
  have kept (a : Node α) (l : List (Node α)) (apart : ((a :: l).map Node.place).Nodup) :
      Ring.collapse 0 a l = a :: l := by
    induction l generalizing a with
    | nil => rfl
    | cons b l ih =>
      rw [List.map_cons, List.nodup_cons] at apart
      have new : a.place ≠ b.place := fun same => apart.1 (same ▸ List.mem_cons_self ..)
      rw [Ring.collapse, differ new, ih b apart.2]
      rfl
  cases r with
  | nil => cases long
  | cons a l =>
    have closed : Ring.close 0 (a :: l) = a :: l := by
      obtain ⟨m, z, rfl⟩ := (List.eq_nil_or_concat l).resolve_left (by rintro rfl; simp at long)
      have new : z.place ≠ a.place := by
        rw [List.map_cons, List.nodup_cons, List.map_concat] at apart
        exact fun same => apart.1 (by simp [same])
      simp [Ring.close, differ new]
    rw [Ring.distinct?, kept a l apart, closed]
    exact if_pos long

theorem ringsSimple {r : Ring α} (simple : Plane.Simple (r.map Node.place))
    (left : 0 < Plane.sweptArea (r.map Node.place)) : ∃ s ts,
      Triangulation.ofRings 0 r [] = .ok (ts.map fun t => (cornerOf t).triangle) ∧
        Plane.Clipped (Node.spot s) r ts ∧ Plane.Filled (r.map (Node.spot s)) := by
  obtain ⟨s, filled⟩ := Plane.simpleFilled simple left
  rw [List.map_map] at filled
  have long : 3 ≤ r.length := by simpa using simple.long
  obtain ⟨ts, done, clipped⟩ := clipFilled (n := r.length - 3) (by omega) filled
  refine ⟨s, ts, ?_, clipped, filled⟩
  have some : ts ≠ [] := by
    rintro rfl
    have := Plane.clippedLength clipped
    simp at this
    omega
  obtain ⟨t, us, rfl⟩ := List.exists_cons_of_ne_nil some
  have area : ¬r.area ≤ 0 := by
    rw [areaSwept]
    exact (div_pos left (by norm_num : (0 : α) < 1 + 1)).not_ge
  simp only [Triangulation.ofRings, distinctKept long simple.nodup, if_neg area, List.filterMap_nil, List.mergeSort_nil,
    List.foldlM_nil, pure_bind, done]
  rfl

end SceneStream.Geometry
