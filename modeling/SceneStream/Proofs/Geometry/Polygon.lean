import SceneStream.Proofs.Geometry.Clip
import SceneStream.Proofs.Geometry.Normal

/-! Simple polygons in exact arithmetic. One is cut into triangles that are wound as it is, share nothing but sides and
together make up its area. -/
namespace SceneStream.Geometry

def Vec.part {α : Type} [Scalar α] (p q : Vec α) (t : α) : Vec α := p + (q - p) * t

variable {α : Type} [Field α] [LinearOrder α] [Roots α]

def OnEdge (e : Vec α × Vec α) (w : Vec α) : Prop := ∃ t, 0 ≤ t ∧ t ≤ 1 ∧ w = e.1.part e.2 t

/-- Edges that follow one another have a vertex in common and others have nothing; a vertex may lie straight between
those beside it. -/
structure SimplePolygon (points : List (Vec α)) : Prop where
  enough : 3 ≤ points.length
  flat : ∃ normal : Vec α, normal ≠ Vec.zero ∧ ∃ d, InPlane normal d points
  nodup : points.Nodup
  joined : ∀ e ∈ edges points, ∀ f ∈ edges points, e.2 = f.1 → ∀ w, OnEdge e w → OnEdge f w → w = e.2
  apart : ∀ e ∈ edges points, ∀ f ∈ edges points, e ≠ f → e.2 ≠ f.1 → f.2 ≠ e.1 → ∀ w, OnEdge e w → ¬OnEdge f w

theorem edgesMeet {points : List (Vec α)} (simple : SimplePolygon points) {e f} (first : e ∈ edges points)
    (second : f ∈ edges points) (differ : e ≠ f) {w : Vec α} (on : OnEdge e w) (on' : OnEdge f w) :
    (w = e.1 ∨ w = e.2) ∧ (w = f.1 ∨ w = f.2) := by
  by_cases after : e.2 = f.1
  · have here := simple.joined e first f second after w on on'
    exact ⟨Or.inr here, Or.inl (here.trans after)⟩
  by_cases before : f.2 = e.1
  · have here := simple.joined f second e first before w on' on
    exact ⟨Or.inl (here.trans before), Or.inr here⟩
  exact absurd on' (simple.apart e first f second differ after before w on)

/-- A point as it is laid into the plane of a polygon. -/
def laid (plane : Triangulation.Plane) (p : Vec α) : α × α :=
  (if plane.flipped then -(p.seen plane.axis).1 else (p.seen plane.axis).1, (p.seen plane.axis).2)

theorem laidNode (plane : Triangulation.Plane) (i : Nat) (p : Vec α) : (plane.project i p).place = laid plane p := by
  obtain ⟨axis, flipped⟩ := plane
  cases axis <;> rfl

theorem laidPart (plane : Triangulation.Plane) (p q : Vec α) (t : α) : laid plane (p.part q t) =
    ((laid plane p).1 + t * ((laid plane q).1 - (laid plane p).1),
      (laid plane p).2 + t * ((laid plane q).2 - (laid plane p).2)) := by
  obtain ⟨axis, flipped⟩ := plane
  have along (x y : α) : x + (y - x) * t = x + t * (y - x) := by ring
  have back (x y : α) : -(x + (y - x) * t) = -x + t * (-y - -x) := by ring
  cases axis <;> cases flipped
  all_goals refine Prod.ext ?_ (along _ _)
  · exact along _ _
  · exact back _ _
  · exact along _ _
  · exact back _ _
  · exact along _ _
  · exact back _ _

theorem laidApart {n p q : Vec α} {plane : Triangulation.Plane} (here : n.get plane.axis ≠ 0)
    (level : n.dot p = n.dot q) (same : laid plane p = laid plane q) : p = q := by
  refine seenApart here level ?_
  obtain ⟨first, second⟩ := Prod.ext_iff.mp same
  refine Prod.ext ?_ second
  simp only [laid] at first
  split at first
  · exact neg_inj.mp first
  · exact first

theorem partLevel {n p q : Vec α} {d : α} (first : n.dot p = d) (second : n.dot q = d) (t : α) :
    n.dot (p.part q t) = d := by
  have start : n.x * p.x + n.y * p.y + n.z * p.z = d := first
  have finish : n.x * q.x + n.y * q.y + n.z * q.z = d := second
  change n.x * (p.x + (q.x - p.x) * t) + n.y * (p.y + (q.y - p.y) * t) + n.z * (p.z + (q.z - p.z) * t) = d
  linear_combination (1 - t) * start + t * finish

theorem laidSwept (plane : Triangulation.Plane) (points : List (Vec α)) : Plane.sweptArea (points.map (laid plane)) =
    if plane.flipped then -(loopNormal points).get plane.axis else (loopNormal points).get plane.axis := by
  rw [normalSeen, sweptMap, sweptMap]
  unfold laid
  split
  · rw [List.sum_neg, List.map_map]
    refine congrArg List.sum (List.map_congr_left fun e _ => ?_)
    simp only [Function.comp_apply]
    ring
  · rfl

theorem projectedLaid (plane : Triangulation.Plane) (points : List (Vec α)) :
    (Triangulation.projected plane points).map Node.place = points.map (laid plane) := by
  have first : (Triangulation.projected plane points).map Node.place = points.zipIdx.map (laid plane ∘ Prod.fst) := by
    rw [Triangulation.projected, List.map_map]
    exact List.map_congr_left fun p _ => laidNode plane p.2 p.1
  rw [first, ← List.map_map, List.zipIdx_map_fst]

theorem nodeLaid {plane : Triangulation.Plane} {points : List (Vec α)} {a : Node α}
    (mem : a ∈ Triangulation.projected plane points) : ∃ p, points[a.index]? = some p ∧ a.place = laid plane p := by
  obtain ⟨p, here, same⟩ := Triangulation.projectedIndex mem
  exact ⟨p, here, same ▸ laidNode ..⟩

variable [IsStrictOrderedRing α]

theorem onLaid {e : Vec α × Vec α} {w : Vec α} (plane : Triangulation.Plane) (on : OnEdge e w) :
    laid plane w ∈ segment α (laid plane e.1) (laid plane e.2) := by
  obtain ⟨t, t0, t1, rfl⟩ := on
  exact Plane.onSegment.mpr ⟨t, t0, t1, laidPart ..⟩

theorem laidMeet {n : Vec α} {d : α} {plane : Triangulation.Plane} (here : n.get plane.axis ≠ 0) {e f : Vec α × Vec α}
    (level : n.dot e.1 = d ∧ n.dot e.2 = d) (level' : n.dot f.1 = d ∧ n.dot f.2 = d) {w : α × α}
    (on : w ∈ segment α (laid plane e.1) (laid plane e.2)) (on' : w ∈ segment α (laid plane f.1) (laid plane f.2)) :
    ∃ v, OnEdge e v ∧ OnEdge f v ∧ w = laid plane v := by
  obtain ⟨t, t0, t1, place⟩ := Plane.onSegment.mp on
  obtain ⟨u, u0, u1, place'⟩ := Plane.onSegment.mp on'
  rw [← laidPart] at place place'
  have same : e.1.part e.2 t = f.1.part f.2 u := by
    refine laidApart here ?_ (place.symm.trans place')
    rw [partLevel level.1 level.2, partLevel level'.1 level'.2]
  exact ⟨_, ⟨t, t0, t1, rfl⟩, ⟨u, u0, u1, same⟩, place⟩

theorem polygonLaid {points : List (Vec α)} (simple : SimplePolygon points) {n : Vec α} {d : α}
    (level : InPlane n d points) {plane : Triangulation.Plane} (here : n.get plane.axis ≠ 0) :
    Plane.Simple (points.map (laid plane)) where
  long := by simpa using simple.enough
  nodup := simple.nodup.map_on fun p first q second => laidApart here ((level p first).trans (level q second).symm)
  apart := by
    intro e mem f mem' differ w on on'
    obtain ⟨e, first, rfl⟩ := mappedEdge mem
    obtain ⟨f, second, rfl⟩ := mappedEdge mem'
    have inside := edgesInside first
    have inside' := edgesInside second
    obtain ⟨v, one, two, rfl⟩ := laidMeet here ⟨level _ inside.1, level _ inside.2⟩
      ⟨level _ inside'.1, level _ inside'.2⟩ on on'
    have ends := edgesMeet simple first second (fun eq => differ (eq ▸ rfl)) one two
    refine ⟨ends.1.imp (congrArg (laid plane)) (congrArg (laid plane)), ?_⟩
    exact ends.2.imp (congrArg (laid plane)) (congrArg (laid plane))

theorem dotPositive {n : Vec α} (some : n ≠ Vec.zero) : 0 < n.dot n := by
  have sum : n.dot n = n.x * n.x + n.y * n.y + n.z * n.z := rfl
  obtain ⟨i, here⟩ := someAxis some
  have square := mul_self_pos.mpr here
  rw [sum]
  cases i <;> simp only [Vec.get] at square <;>
    linarith [mul_self_nonneg n.x, mul_self_nonneg n.y, mul_self_nonneg n.z]

theorem polygonNormal {points : List (Vec α)} (simple : SimplePolygon points) : loopNormal points ≠ Vec.zero := by
  obtain ⟨n, some, d, level⟩ := simple.flat
  obtain ⟨m, here⟩ := someAxis some
  have seen : n.get (⟨m, false⟩ : Triangulation.Plane).axis ≠ 0 := here
  have swept := Plane.simpleSwept (polygonLaid simple level seen)
  rw [laidSwept] at swept
  rintro zero
  refine swept ?_
  rw [zero]
  cases m <;> rfl

theorem polygonLeft {points : List (Vec α)} (simple : SimplePolygon points) :
    let plane := Triangulation.Plane.of (loopNormal points)
    Plane.Simple (points.map (laid plane)) ∧ 0 < Plane.sweptArea (points.map (laid plane)) := by
  obtain ⟨n, some, d, level⟩ := simple.flat
  have seen := dominantSome (polygonNormal simple)
  refine ⟨polygonLaid simple level (normalAxis some level seen), ?_⟩
  rw [laidSwept]
  by_cases back : (loopNormal points).get (loopNormal points).dominantAxis < 0
  · exact (if_pos (decide_eq_true back)).symm ▸ neg_pos.mpr back
  · have up : ¬decide ((loopNormal points).get (loopNormal points).dominantAxis < 0) = true := by
      rw [decide_eq_true_iff]
      exact back
    exact (if_neg up).symm ▸ lt_of_le_of_ne (not_lt.mp back) seen.symm

/-- What is between the vertices of a triangle and on none of its sides. -/
def Triangle.Inside (points : List (Vec α)) (t : Triangle) (w : Vec α) : Prop :=
  ∃ a b c, points[t.a]? = some a ∧ points[t.b]? = some b ∧ points[t.c]? = some c ∧
    ∃ x y, 0 < x ∧ x < 1 ∧ 0 < y ∧ y < 1 ∧ w = (a.part b x).part c y

/-- The triangle is wound as the whole and has a share of its area. -/
def Triangle.Share (points : List (Vec α)) (t : Triangle) (share : α) : Prop :=
  0 < share ∧ ∃ a b c, points[t.a]? = some a ∧ points[t.b]? = some b ∧ points[t.c]? = some c ∧
    loopNormal [a, b, c] = loopNormal points * share

/-- The triangles make up a polygon. -/
structure Covers (points : List (Vec α)) (ts : List Triangle) : Prop where
  count : ts.length + 2 = points.length
  area : loopNormal points ≠ Vec.zero
  shares : ∃ shares, List.Forall₂ (Triangle.Share points) ts shares ∧ shares.sum = 1
  apart : ts.Pairwise fun t u => ∀ w, t.Inside points w → ¬u.Inside points w

theorem polygonClipped (root : ∀ x : α, 0 < x → 0 < Roots.root x) {points : List (Vec α)}
    (simple : SimplePolygon points) : ∃ s ts,
      let nodes := Triangulation.projected (.of (loopNormal points)) points
      triangulate 0 points [points.length] = .ok (ts.map fun t => (cornerOf t).triangle) ∧
        Plane.Clipped (Node.spot s) nodes ts ∧ Plane.Filled (nodes.map (Node.spot s)) := by
  obtain ⟨flat, left⟩ := polygonLeft simple
  rw [← projectedLaid] at flat left
  obtain ⟨s, ts, done, clipped, filled⟩ := ringsSimple flat left
  refine ⟨s, ts, ?_, clipped, filled⟩
  have large : [points.length].zipIdx.find? (·.1 < 3) = none := by simp [simple.enough]
  have finite : points.any (!·.isFinite) = false := by
    rw [List.any_eq_false]
    exact fun p _ => Bool.false_ne_true
  have long : ¬(loopNormal points).length ≤ 0 := (root _ (dotPositive (polygonNormal simple))).not_ge
  have nodes : points.zipIdx.map (fun p => (Triangulation.Plane.of (loopNormal points)).project p.2 p.1) =
    Triangulation.projected (.of (loopNormal points)) points := rfl
  have whole : points.take points.length = points := List.take_length
  have pieces : Triangulation.pieces [points.length] (Triangulation.projected (.of (loopNormal points)) points) =
      [Triangulation.projected (.of (loopNormal points)) points] := by
    simp [Triangulation.pieces, Triangulation.projected]
  simp only [triangulate, List.sum_singleton, ne_eq, not_true_eq_false, if_false, large, finite, Bool.false_eq_true,
    List.headD_cons, whole, nodes, pieces, if_neg long]
  exact done

theorem triangleShare {points : List (Vec α)} (simple : SimplePolygon points) {p q r : Vec α}
    (inside : [p, q, r] ⊆ points) :
    let plane := Triangulation.Plane.of (loopNormal points)
    loopNormal [p, q, r] = loopNormal points *
      (Plane.turn (laid plane p) (laid plane q) (laid plane r) / Plane.sweptArea (points.map (laid plane))) := by
  intro plane
  obtain ⟨n, some, d, level⟩ := simple.flat
  have seen := dominantSome (polygonNormal simple)
  have swept := laidSwept plane [p, q, r]
  rw [List.map_cons, List.map_cons, List.map_cons, List.map_nil, Plane.sweptTriangle] at swept
  refine (normalShare some level (fun v mem => level v (inside mem)) seen).trans ?_
  rw [swept, laidSwept]
  split
  · rw [neg_div_neg_eq]
    rfl
  · rfl

theorem insideLaid {plane : Triangulation.Plane} {p q r : Vec α}
    (left : 0 < Plane.turn (laid plane p) (laid plane q) (laid plane r)) {x y : α} (x0 : 0 < x) (x1 : x < 1) (y0 : 0 < y)
    (y1 : y < 1) : Plane.Inner (laid plane p) (laid plane q) (laid plane r) (laid plane ((p.part q x).part r y)) := by
  rw [laidPart]
  exact Plane.innerPart left x0 x1 y0 y1 (laidPart ..)

section Clipped
variable {plane : Triangulation.Plane} {points : List (Vec α)} {s : α} {ts : List (Node α × Node α × Node α)}

section Part
variable {r : Ring α} (inside : r ⊆ Triangulation.projected plane points) (clipped : Plane.Clipped (Node.spot s) r ts)
include inside clipped

omit [IsStrictOrderedRing α] in
theorem partPoints {t} (mem : t ∈ ts) : ∃ p q r, points[t.1.index]? = some p ∧ points[t.2.1.index]? = some q ∧
    points[t.2.2.index]? = some r ∧ t.1.place = laid plane p ∧ t.2.1.place = laid plane q ∧
      t.2.2.place = laid plane r := by
  obtain ⟨first, second, third⟩ := Plane.clippedMembers clipped t mem
  obtain ⟨p, pHere, pLaid⟩ := nodeLaid (inside first)
  obtain ⟨q, qHere, qLaid⟩ := nodeLaid (inside second)
  obtain ⟨r, rHere, rLaid⟩ := nodeLaid (inside third)
  exact ⟨p, q, r, pHere, qHere, rHere, pLaid, qLaid, rLaid⟩

theorem partSpots {t} (mem : t ∈ ts) {w : Vec α} (within : (cornerOf t).triangle.Inside points w) :
    Plane.Inner (t.1.spot s) (t.2.1.spot s) (t.2.2.spot s) (Plane.tilt s (laid plane w)) := by
  obtain ⟨p, q, r, pHere, qHere, rHere, pLaid, qLaid, rLaid⟩ := partPoints inside clipped mem
  obtain ⟨a, b, c, aHere, bHere, cHere, x, y, x0, x1, y0, y1, rfl⟩ := within
  obtain rfl : p = a := Option.some.inj (pHere.symm.trans aHere)
  obtain rfl : q = b := Option.some.inj (qHere.symm.trans bHere)
  obtain rfl : r = c := Option.some.inj (rHere.symm.trans cHere)
  have left := Plane.clippedLeft clipped t mem
  simp only [Node.spot, Plane.Inner, Plane.turnTilt, pLaid, qLaid, rLaid] at left ⊢
  exact insideLaid left x0 x1 y0 y1

end Part

variable (clipped : Plane.Clipped (Node.spot s) (Triangulation.projected plane points) ts)
include clipped

omit [IsStrictOrderedRing α] in
theorem clippedPoints {t} (mem : t ∈ ts) : ∃ p q r, points[t.1.index]? = some p ∧ points[t.2.1.index]? = some q ∧
    points[t.2.2.index]? = some r ∧ t.1.place = laid plane p ∧ t.2.1.place = laid plane q ∧
      t.2.2.place = laid plane r :=
  partPoints (List.Subset.refl _) clipped mem

theorem insideSpots {t} (mem : t ∈ ts) {w : Vec α} (inside : (cornerOf t).triangle.Inside points w) :
    Plane.Inner (t.1.spot s) (t.2.1.spot s) (t.2.2.spot s) (Plane.tilt s (laid plane w)) :=
  partSpots (List.Subset.refl _) clipped mem inside

end Clipped

theorem simplePolygonCut (root : ∀ x : α, 0 < x → 0 < Roots.root x) {points : List (Vec α)}
    (simple : SimplePolygon points) :
    ∃ ts, triangulate 0 points [points.length] = .ok ts ∧ Covers points ts := by
  obtain ⟨s, ts, done, clipped, filled⟩ := polygonClipped root simple
  have area := (polygonLeft simple).2
  have sum := clippedSwept clipped
  rw [projectedLaid] at sum
  refine ⟨_, done, ?_, polygonNormal simple, ⟨ts.map fun t => Node.turn t.1 t.2.1 t.2.2 /
    Plane.sweptArea (points.map (laid (.of (loopNormal points)))), ?_, ?_⟩, ?_⟩
  · rw [List.length_map, Plane.clippedLength clipped]
    simp [Triangulation.projected]
  · refine List.forall₂_map_left_iff.mpr (List.forall₂_map_right_iff.mpr (List.forall₂_same.mpr fun t mem => ?_))
    obtain ⟨p, q, r, pHere, qHere, rHere, pLaid, qLaid, rLaid⟩ := clippedPoints clipped mem
    have left := Plane.clippedLeft clipped t mem
    rw [spotTurn] at left
    refine ⟨div_pos left area, p, q, r, pHere, qHere, rHere, ?_⟩
    have share := triangleShare simple (List.cons_subset.mpr ⟨List.mem_of_getElem? pHere, List.cons_subset.mpr
      ⟨List.mem_of_getElem? qHere, List.cons_subset.mpr ⟨List.mem_of_getElem? rHere, List.nil_subset _⟩⟩⟩)
    dsimp only at share
    rw [← pLaid, ← qLaid, ← rLaid] at share
    exact share
  · simp only [div_eq_mul_inv, List.sum_map_mul_right, ← sum]
    exact mul_inv_cancel₀ area.ne'
  · refine List.pairwise_map.mpr ((Plane.clippedApart clipped filled).imp_of_mem fun {t u} first second apart w => ?_)
    exact fun one two => apart _ ⟨insideSpots clipped first one, insideSpots clipped second two⟩

theorem ratRoot (x : ℚ) (positive : 0 < x) : 0 < Roots.root x := by
  have top : 0 < Int.sqrt x.num := by
    have := Rat.num_pos.mpr positive
    rw [Int.sqrt, Int.natCast_pos, Nat.sqrt_pos]
    omega
  have bottom : 0 < Nat.sqrt x.den := Nat.sqrt_pos.mpr x.den_pos
  change 0 < Rat.sqrt x
  rw [Rat.sqrt, Rat.mkRat_eq_div]
  exact div_pos (Int.cast_pos.mpr top) (Nat.cast_pos.mpr bottom)

/-- A triangle, the middle of one side of which is a vertex. -/
def gable : List (Vec ℚ) := [⟨0, 0, 0⟩, ⟨1, 0, 0⟩, ⟨2, 0, 0⟩, ⟨1, 1, 0⟩]

theorem gableSimple : SimplePolygon gable := by
  have sides : edges gable = [(⟨0, 0, 0⟩, ⟨1, 0, 0⟩), (⟨1, 0, 0⟩, ⟨2, 0, 0⟩), (⟨2, 0, 0⟩, ⟨1, 1, 0⟩),
    (⟨1, 1, 0⟩, ⟨0, 0, 0⟩)] := rfl
  have on {e : Vec ℚ × Vec ℚ} {w : Vec ℚ} (on : OnEdge e w) : ∃ t, 0 ≤ t ∧ t ≤ 1 ∧
      w.x = e.1.x + (e.2.x - e.1.x) * t ∧ w.y = e.1.y + (e.2.y - e.1.y) * t ∧ w.z = e.1.z + (e.2.z - e.1.z) * t := by
    obtain ⟨t, t0, t1, rfl⟩ := on
    exact ⟨t, t0, t1, rfl, rfl, rfl⟩
  refine ⟨by decide, ⟨⟨0, 0, 1⟩, by decide, 0, by simp [gable, InPlane, Vec.dot]⟩, by decide, ?_, ?_⟩
  · intro e mem f mem' same w first second
    obtain ⟨t, t0, t1, x, y, z⟩ := on first
    obtain ⟨u, u0, u1, x', y', z'⟩ := on second
    simp only [sides, List.mem_cons, List.not_mem_nil, or_false] at mem mem'
    refine sameVec fun i => ?_
    rcases mem with rfl | rfl | rfl | rfl <;> rcases mem' with rfl | rfl | rfl | rfl <;>
      first
      | exact absurd same (by decide)
      | cases i <;> simp only [Vec.get] at * <;> linarith
  · intro e mem f mem' differ after before w first second
    obtain ⟨t, t0, t1, x, y, z⟩ := on first
    obtain ⟨u, u0, u1, x', y', z'⟩ := on second
    simp only [sides, List.mem_cons, List.not_mem_nil, or_false] at mem mem'
    rcases mem with rfl | rfl | rfl | rfl <;> rcases mem' with rfl | rfl | rfl | rfl <;>
      first
      | exact absurd rfl differ
      | exact absurd rfl after
      | exact absurd rfl before
      | dsimp only at *; linarith

theorem gableCut : SimplePolygon gable ∧ ∃ ts, triangulate 0 gable [gable.length] = .ok ts ∧ Covers gable ts :=
  ⟨gableSimple, simplePolygonCut ratRoot gableSimple⟩

end SceneStream.Geometry
