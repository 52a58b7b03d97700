import SceneStream.Proofs.Geometry.Attach
import SceneStream.Proofs.Geometry.Bounds
import SceneStream.Proofs.Geometry.Plane.Swept

/-! The area of a triangulation, in exact arithmetic and without tolerance. Whatever the loops are like, dropping,
turning, joining and clipping them neither adds area nor loses any, but that a last triangle that turns to the right
is left out. -/
namespace SceneStream.Geometry
open SceneStream.Outcome (okBind okMap)

namespace Ring
variable {α : Type} [Scalar α]

/-- Clipping, and the ring that is left in the end. -/
def clipLeaving (eps : α) : Nat → Ring α → Except Nat (List Triangle × Ring α)
  | 0, r => .ok (lastTriangle eps r, r)
  | n + 1, r =>
    let cs := corners r
    match ear? eps cs with
    | some i => (clipLeaving eps n (r.eraseIdx i)).map fun (ts, last) =>
        ((cs[i]?.map Corner.triangle).toList ++ ts, last)
    | none => match flat? eps cs with
      | some i => clipLeaving eps n (r.eraseIdx i)
      | none => .error r.length

theorem clipLeft (eps : α) (n : Nat) (r : Ring α) : (clipLeaving eps n r).map (·.1) = clip eps n r := by
  induction n generalizing r with
  | zero => rfl
  | succ n ih =>
    rw [clipLeaving, clip]
    cases ear? eps (corners r) with
    | some i =>
      dsimp only
      rw [← ih]
      cases clipLeaving eps n (r.eraseIdx i) <;> rfl
    | none => cases flat? eps (corners r) with
      | some i => exact ih _
      | none => rfl

theorem clipLeaves {eps : α} {n : Nat} {r : Ring α} {ts : List Triangle} (done : clip eps n r = .ok ts) :
    ∃ last, clipLeaving eps n r = .ok (ts, last) := by
  rw [← clipLeft] at done
  obtain ⟨⟨us, last⟩, left, rfl⟩ := okMap done
  exact ⟨last, left⟩

end Ring

variable {α : Type} [Field α] [LinearOrder α] [Roots α]

theorem areaBegun {k r : Ring α} (turned : k.IsRotated r) : k.area = r.area := by
  rw [areaSwept, areaSwept, Plane.sweptTurned (turned.map _)]

theorem reversedArea (r : Ring α) : r.reversed.area = -r.area := by
  rw [areaBegun (reversedTurned r), areaSwept, areaSwept, List.map_reverse, Plane.sweptReversed]
  exact neg_div ..

theorem cornerArea (a b c : Node α) (l : List (Node α)) :
    Ring.area (a :: b :: c :: l) = Node.turn a b c / (1 + 1) + Ring.area (a :: c :: l) := by
  rw [areaSwept, areaSwept, List.map_cons, List.map_cons, List.map_cons, Plane.sweptCorner]
  exact add_div ..

theorem shortArea {r : Ring α} (short : r.length < 3) : r.area = 0 := by
  rw [areaSwept, Plane.sweptShort (by simpa using short)]
  exact zero_div _

theorem triangleArea (a b c : Node α) : Ring.area [a, b, c] = Node.turn a b c / (1 + 1) := by
  rw [cornerArea, shortArea (by simp)]
  exact add_zero _

/-- The signed area of a triangle, its corners being numbers of nodes. -/
def Triangle.area (nodes : Ring α) (t : Triangle) : α := Ring.area (t.toList.filterMap fun i => nodes[i]?)

theorem cutArea {nodes r : Ring α} (numbered : ∀ a ∈ nodes, nodes[a.index]? = some a) (inside : r ⊆ nodes)
    {c : Ring.Corner α} (mem : c ∈ Ring.corners r) :
    c.triangle.area nodes = c.turn / (1 + 1) := by
  obtain ⟨before, node, after⟩ := Ring.cornersInside mem
  have found : c.triangle.toList.filterMap (fun i => nodes[i]?) = [c.before, c.node, c.after] := by
    simp only [Triangle.toList, Ring.Corner.triangle, List.filterMap_cons, List.filterMap_nil, numbered _ (inside before),
      numbered _ (inside node), numbered _ (inside after)]
  rw [Triangle.area, found, triangleArea]
  rfl

theorem eraseArea {r : Ring α} {i : Nat} {c : Ring.Corner α} (long : 3 ≤ r.length) (found : (Ring.corners r)[i]? = some c) :
    r.area = c.turn / (1 + 1) + Ring.area (r.eraseIdx i) := by
  -- A corner that is taken out of a ring takes half its turn with it.
  rw [cornersTriples, List.getElem?_map] at found
  obtain ⟨t, here, rfl⟩ := Option.map_eq_some_iff.mp found
  obtain ⟨k, begun⟩ := triplesBegun long (List.mem_zipIdx_iff_getElem?.mpr here)
  have inside := triplesSize r ▸ (List.getElem?_eq_some_iff.mp here).1
  have whole : (t.1 :: t.2.1 :: t.2.2 :: k).IsRotated r :=
    (List.isRotated_append (l := [t.1])).trans (begun ▸ List.IsRotated.forall r i)
  have kept : (t.1 :: t.2.2 :: k).IsRotated (r.eraseIdx i) :=
    (List.isRotated_append (l := [t.1])).trans (eraseTurned inside begun)
  rw [← areaBegun whole, ← areaBegun kept, cornerArea]
  rfl

section Attach
variable {outer ring : Ring α}

theorem attachArea {hole : Nat × Ring α} (long : 3 ≤ outer.length) (more : 3 ≤ hole.2.length)
    (done : Triangulation.attach 0 outer hole = .ok ring) :
    3 ≤ ring.length ∧ ring.area = outer.area + hole.2.area := by
  obtain ⟨n, _ | ⟨h, m⟩⟩ := hole
  · cases more
  cases found : Ring.bridge? 0 h outer with
  | none =>
    simp only [Triangulation.attach, found] at done
    cases done
  | some i =>
    simp only [Triangulation.attach, found] at done
    cases done
    obtain ⟨t, here, -⟩ := Ring.bridgeChosen found
    have inside := (List.getElem?_eq_some_iff.mp here).1
    obtain ⟨s, corner⟩ : ∃ s, (triples outer)[i]? = some s :=
      ⟨_, List.getElem?_eq_getElem (by rwa [triplesSize])⟩
    obtain ⟨k, begun⟩ := triplesBegun long (List.mem_zipIdx_iff_getElem?.mpr corner)
    have second : m ≠ [] := by
      rintro rfl
      simp at more
    obtain ⟨c, d, rs, ks, join⟩ := joinImages Node.place inside.le begun second rfl
    refine ⟨long.trans (Ring.joinLength ..).1, ?_⟩
    rw [areaSwept, areaSwept, areaSwept, Plane.sweptJoined join]
    exact add_div ..

theorem attachAllArea {holes : List (Nat × Ring α)} (long : 3 ≤ outer.length) (more : ∀ h ∈ holes, 3 ≤ h.2.length)
    (done : holes.foldlM (Triangulation.attach 0) outer = .ok ring) :
    3 ≤ ring.length ∧ ring.area = outer.area + (holes.map fun h => h.2.area).sum := by
  induction holes generalizing outer with
  | nil =>
    cases done
    exact ⟨long, (add_zero _).symm⟩
  | cons h holes ih =>
    rw [List.forall_mem_cons] at more
    obtain ⟨next, first, rest⟩ := okBind done
    obtain ⟨longer, one⟩ := attachArea long more.1 first
    obtain ⟨longest, others⟩ := ih longer more.2 rest
    exact ⟨longest, by rw [others, one, List.map_cons, List.sum_cons, add_assoc]⟩

end Attach

variable [IsStrictOrderedRing α]

section Distinct

theorem collapseWalked (a : Node α) (l : List (Node α)) (z : α × α) :
    Plane.walked ((Ring.collapse 0 a l).map Node.place ++ [z]) = Plane.walked ((a :: l).map Node.place ++ [z]) := by
  induction l generalizing a with
  | nil => rfl
  | cons b l ih =>
    rw [Ring.collapse]
    split
    · rename_i same
      rw [ih, List.map_cons, List.map_cons, List.map_cons, ← placeSame.mp same]
      exact (Plane.walkedSame ..).symm
    · obtain ⟨r, begun⟩ := Ring.collapseBegun 0 b l
      have rest := ih b
      rw [begun] at rest ⊢
      simp only [List.map_cons, List.cons_append, Plane.walkedCons] at rest ⊢
      rw [rest]

theorem closeArea (a : Node α) (l : List (Node α)) :
    (Ring.close 0 (Ring.collapse 0 a l)).area = Ring.area (a :: l) := by
  obtain ⟨r, begun⟩ := Ring.collapseBegun 0 a l
  have whole : Ring.area (a :: r) = Ring.area (a :: l) := by
    have around := collapseWalked a l a.place
    rw [begun] at around
    rw [areaSwept, areaSwept, List.map_cons, List.map_cons, Plane.sweptWalked, Plane.sweptWalked]
    exact congrArg (· / (1 + 1)) around
  rw [begun, ← whole]
  rcases List.eq_nil_or_concat r with rfl | ⟨k, z, rfl⟩
  · rfl
  · rw [List.concat_eq_append]
    by_cases same : z.same 0 a
    · have closed : Ring.close 0 (a :: (k ++ [z])) = z :: k := by simp [Ring.close, same]
      have turned : (a :: (k ++ [z])).IsRotated (z :: a :: k) := List.isRotated_append (l := a :: k)
      rw [closed, areaBegun turned, areaSwept, areaSwept, List.map_cons, List.map_cons, List.map_cons,
        ← placeSame.mp same, Plane.sweptSame]
    · have closed : Ring.close 0 (a :: (k ++ [z])) = a :: (k ++ [z]) := by simp [Ring.close, same]
      rw [closed]

theorem distinctArea (r : Ring α) : (r.distinct? 0).elim 0 Ring.area = r.area := by
  cases r with
  | nil => exact (shortArea (by simp)).symm
  | cons a l =>
    rw [Ring.distinct?, ← closeArea a l]
    split
    · rfl
    · rename_i short
      exact (shortArea (Nat.lt_of_not_le short)).symm

end Distinct

theorem holeArea (r : Ring α) : (∀ h ∈ Triangulation.hole? 0 r, 3 ≤ h.length) ∧
    (Triangulation.hole? 0 r).elim 0 Ring.area = -|r.area| := by
  have same := distinctArea r
  simp only [Triangulation.hole?]
  cases found : r.distinct? 0 with
  | none =>
    rw [found] at same
    rw [← same]
    constructor
    · rintro h ⟨⟩
    · simp
  | some k =>
    rw [found] at same
    have long := (Ring.distinctLength found).1
    have kept : k.area = r.area := same
    rw [Option.bind_eq_bind, Option.bind_some, ← kept]
    split
    · rename_i flat
      have none : k.area = 0 := by rwa [absExact, abs_nonpos_iff] at flat
      rw [none, abs_zero, neg_zero]
      constructor
      · rintro h ⟨⟩
      · rfl
    · constructor
      · rintro h ⟨⟩
        rw [Ring.startLength]
        split
        · exact long.trans (Ring.reversedLength k).ge
        · exact long
      · change Ring.area (Ring.startAt _ _) = _
        rw [areaBegun (startTurned ..)]
        split
        · rename_i left
          rw [reversedArea, abs_of_pos left]
        · rename_i right
          rw [abs_of_nonpos (not_lt.mp right), neg_neg]

theorem holesArea (holes : List (Nat × Ring α)) :
    ((holes.filterMap fun (i, r) => (Triangulation.hole? 0 r).map (i, ·)).map fun h => h.2.area).sum =
      -(holes.map fun h => |h.2.area|).sum := by
  induction holes with
  | nil => exact neg_zero.symm
  | cons h holes ih =>
    obtain ⟨i, r⟩ := h
    have first := (holeArea r).2
    rw [List.map_cons, List.sum_cons, neg_add, ← ih, ← first]
    cases found : Triangulation.hole? 0 r with
    | none =>
      rw [List.filterMap_cons_none (by simp [found])]
      exact (zero_add _).symm
    | some k =>
      rw [List.filterMap_cons_some (b := (i, k)) (by simp [found])]
      rfl

theorem joinedArea {outer ring : Ring α} {holes : List (Nat × Ring α)}
    (done : Triangulation.joined 0 outer holes = .ok ring) :
    3 ≤ ring.length ∧ ring.area = outer.area - (holes.map fun h => |h.2.area|).sum := by
  obtain ⟨kept, found, attached⟩ := Triangulation.joinedParts done
  have same := distinctArea outer
  rw [found] at same
  have order := List.mergeSort_perm
    (holes.filterMap fun (i, r) => (Triangulation.hole? 0 r).map (i, ·)) Triangulation.before
  obtain ⟨long, area⟩ := attachAllArea (Ring.distinctLength found).1 (fun h mem => by
    obtain ⟨⟨i, r⟩, -, made⟩ := List.mem_filterMap.mp (order.mem_iff.mp mem)
    obtain ⟨k, hole, rfl⟩ := Option.map_eq_some_iff.mp made
    exact (holeArea r).1 k hole) attached
  refine ⟨long, ?_⟩
  rw [area, (order.map _).sum_eq, holesArea, ← same]
  exact (sub_eq_add_neg ..).symm

/-- The area that is left out if what is left turns to the right. -/
def Ring.omitted (r : Ring α) : α := if r.area < 0 then |r.area| else 0

theorem lastArea {nodes last : Ring α} (numbered : ∀ a ∈ nodes, nodes[a.index]? = some a) (three : last.length = 3)
    (inside : last ⊆ nodes) : ((last.lastTriangle 0).map (Triangle.area nodes)).sum = last.area + last.omitted := by
  have some : (Ring.corners last).length = 2 + 1 := by rw [cornersTriples, List.length_map, triplesSize, three]
  obtain ⟨c, cs, corners⟩ := List.exists_cons_of_ne_nil (List.ne_nil_of_length_eq_add_one some)
  have area : last.area = c.turn / (1 + 1) := by
    rw [eraseArea three.ge (i := 0) (by rw [corners]; rfl), shortArea (by rw [List.length_eraseIdx, three]; decide)]
    exact add_zero _
  have half : (0 : α) < 1 + 1 := by norm_num
  rw [Ring.lastTriangle, corners, Ring.omitted, area]
  dsimp only
  by_cases left : 0 < c.turn
  · have mem : c ∈ Ring.corners last := corners ▸ List.mem_cons_self ..
    rw [if_pos left, if_neg (div_pos left half).not_gt, List.map_singleton, List.sum_singleton,
      cutArea numbered inside mem]
    exact (add_zero _).symm
  · rw [if_neg left]
    rcases (not_lt.mp left).lt_or_eq with right | straight
    · have negative : c.turn / (1 + 1) < 0 := div_neg_of_neg_of_pos right half
      rw [if_pos negative, abs_of_neg negative]
      exact (add_neg_cancel _).symm
    · rw [straight, zero_div, if_neg (lt_irrefl 0)]
      exact (add_zero _).symm

theorem clipArea {nodes : Ring α} (numbered : ∀ a ∈ nodes, nodes[a.index]? = some a) {n : Nat} {r last : Ring α}
    {ts : List Triangle} (long : r.length = n + 3) (inside : r ⊆ nodes) (done : r.clipLeaving 0 n = .ok (ts, last)) :
    last.length = 3 ∧ (ts.map (Triangle.area nodes)).sum = r.area + last.omitted := by
  induction n generalizing r ts with
  | zero =>
    cases done
    exact ⟨long, lastArea numbered long inside⟩
  | succ n ih =>
    have next {i : Nat} {c : Ring.Corner α} (found : (Ring.corners r)[i]? = some c) : (r.eraseIdx i).length = n + 3 := by
      have bound := (List.getElem?_eq_some_iff.mp found).1
      rw [cornersTriples, List.length_map, triplesSize] at bound
      rw [List.length_eraseIdx, if_pos bound]
      omega
    have fewer (i : Nat) : r.eraseIdx i ⊆ nodes := fun x mem => inside (List.eraseIdx_subset mem)
    rw [Ring.clipLeaving] at done
    cases ear : Ring.ear? 0 (Ring.corners r) with
    | some i =>
      obtain ⟨c, found, -⟩ := Ring.earChosen ear
      simp only [ear, found] at done
      obtain ⟨⟨us, left⟩, rest, same⟩ := okMap done
      cases same
      obtain ⟨three, sum⟩ := ih (next found) (fewer i) rest
      refine ⟨three, ?_⟩
      rw [eraseArea (by omega) found, List.map_append, List.sum_append, sum, ← cutArea numbered inside
        (List.mem_of_getElem? found), add_assoc]
      exact congrArg (· + _) (add_zero _)
    | none =>
      cases flat : Ring.flat? 0 (Ring.corners r) with
      | some i =>
        simp only [ear, flat] at done
        obtain ⟨bound, straight, -⟩ := List.findIdx?_eq_some_iff_getElem.mp flat
        have found := List.getElem?_eq_getElem bound
        rw [decide_eq_true_iff, absExact, abs_nonpos_iff] at straight
        obtain ⟨three, sum⟩ := ih (next found) (fewer i) done
        refine ⟨three, ?_⟩
        rw [sum, eraseArea (by omega) found, straight, zero_div]
        exact congrArg (· + _) (zero_add _).symm
      | none =>
        simp only [ear, flat] at done
        cases done

/-- The triangles make up the area of the outer loop without those of the holes; if the three vertices left in the end
turn to the right, theirs comes on top. What is dropped as no hole has no area. -/
theorem areaConserved {points : List (Vec α)} {loops : List Nat} {ts : List Triangle}
    (done : triangulate 0 points loops = .ok ts) :
    let nodes := Triangulation.projected (.of (loopNormal (points.take (loops.headD 0)))) points
    ∃ (outer : Ring α) (holes : List (Ring α)) (ring last : Ring α), Triangulation.pieces loops nodes = outer :: holes ∧
      Triangulation.joined 0 outer ((holes.zipIdx 1).map fun (r, i) => (i, r)) = .ok ring ∧
      ring.clipLeaving 0 (ring.length - 3) = .ok (ts, last) ∧ last.length = 3 ∧
      (ts.map (Triangle.area nodes)).sum = outer.area - (holes.map fun h => |h.area|).sum + last.omitted ∧
      ∀ h ∈ holes, Triangulation.hole? 0 h = none → h.area = 0 := by
  intro nodes
  obtain ⟨-, -, outer, holes, cut, rest⟩ := triangulateParts done
  obtain ⟨-, ring, whole, clipped⟩ := Triangulation.ringsClipped rest
  obtain ⟨last, left⟩ := Ring.clipLeaves clipped
  have numbered (a : Node α) (mem : a ∈ nodes) : nodes[a.index]? = some a := by
    obtain ⟨p, place, same⟩ := Triangulation.projectedIndex mem
    simp only [nodes, Triangulation.projected, List.getElem?_map, List.getElem?_zipIdx, place, Option.map_some, Nat.zero_add]
    exact congrArg some same.symm
  obtain ⟨first, others⟩ := Triangulation.loopsSubset cut
  obtain ⟨long, area⟩ := joinedArea whole
  obtain ⟨three, sum⟩ := clipArea numbered (by omega) (Triangulation.joinedSubset first others whole) left
  refine ⟨outer, holes, ring, last, cut, whole, left, three, ?_, fun h _ none => ?_⟩
  · have unnumbered : (holes.zipIdx 1).map (fun k => |Ring.area k.1|) = holes.map fun h => |Ring.area h| := by
      conv_rhs => rw [← List.zipIdx_map_fst 1 holes, List.map_map]
      rfl
    rw [sum, area, List.map_map, ← unnumbered]
    rfl
  · have zero := (holeArea h).2
    rw [none] at zero
    exact abs_eq_zero.mp (neg_eq_zero.mp zero.symm)

/-- A loop that crosses itself, and a hole that lies partly outside of it. -/
def tangled : List (Vec ℚ) :=
  [⟨0, 4, 0⟩, ⟨1, 4, 0⟩, ⟨0, 2, 0⟩, ⟨4, 0, 0⟩, ⟨1, 2, 0⟩, ⟨5, 4, 0⟩, ⟨2, 3, 0⟩]

def tangledTriangles : List Triangle := [⟨4, 2, 3⟩, ⟨4, 3, 0⟩, ⟨1, 2, 4⟩, ⟨1, 4, 6⟩, ⟨1, 6, 5⟩]

/-- The loops leave two and the triangles make up seven: the last three vertices turn to the right, around five. -/
theorem tangledConserved : triangulate 0 tangled [4, 3] = .ok tangledTriangles ∧
    ∃ outer hole ring last : Ring ℚ, outer.area = 3 ∧ |hole.area| = 1 ∧
      Triangulation.joined 0 outer [(1, hole)] = .ok ring ∧
      ring.clipLeaving 0 (ring.length - 3) = .ok (tangledTriangles, last) ∧ last.omitted = 5 := by
  have done : triangulate 0 tangled [4, 3] = .ok tangledTriangles := by decide +kernel
  obtain ⟨outer, holes, ring, last, cut, whole, left, -, sum, -⟩ := areaConserved done
  have rings : Triangulation.pieces [4, 3] (Triangulation.projected (.of (loopNormal (tangled.take 4))) tangled) =
      [[⟨0, 0, 4⟩, ⟨1, 1, 4⟩, ⟨2, 0, 2⟩, ⟨3, 4, 0⟩], [⟨4, 1, 2⟩, ⟨5, 5, 4⟩, ⟨6, 2, 3⟩]] := by
    decide +kernel
  cases rings.symm.trans cut
  have outside : Ring.area [⟨0, 0, 4⟩, ⟨1, 1, 4⟩, ⟨2, 0, 2⟩, ⟨3, 4, (0 : ℚ)⟩] = 3 := by decide +kernel
  have within : |Ring.area [⟨4, 1, 2⟩, ⟨5, 5, 4⟩, ⟨6, 2, (3 : ℚ)⟩]| = 1 := by decide +kernel
  have seven : (tangledTriangles.map (Triangle.area
      (Triangulation.projected (.of (loopNormal (tangled.take 4))) tangled))).sum = 7 := by
    decide +kernel
  have parts := seven.symm.trans sum
  rw [outside, List.map_singleton, List.sum_singleton, within] at parts
  exact ⟨done, _, _, ring, last, outside, within, whole, left, by linarith⟩

end SceneStream.Geometry
