import SceneStream.Proofs.Geometry.Holed
import SceneStream.Proofs.Geometry.Polygon

/-! Simple polygons with holes in exact arithmetic. Where all bridges are fair such a polygon is cut into triangles that
share nothing but sides and overlap no hole. -/
namespace SceneStream.Geometry

section Pieces
variable {β γ : Type}

theorem piecesWhole (ls : List (List β)) : Triangulation.pieces (ls.map List.length) ls.flatten = ls := by
  induction ls with
  | nil => rfl
  | cons l ls ih => simp [Triangulation.pieces, ih]

theorem piecesMap (f : β → γ) (sizes : List Nat) (l : List β) :
    (Triangulation.pieces sizes l).map (List.map f) = Triangulation.pieces sizes (l.map f) := by
  induction sizes generalizing l with
  | nil => rfl
  | cons n sizes ih => simp [Triangulation.pieces, ih]

end Pieces

variable {α : Type} [Field α] [LinearOrder α] [Roots α]

/-- How often a loop winds about a point, as the polygon is laid that it is a loop of. -/
def windsAbout (outer r : List (Vec α)) (w : Vec α) : ℤ :=
  Plane.rounds (r.map (laid (.of (loopNormal outer)))) (laid (.of (loopNormal outer)) w)

/-- Loops of one plane, all of them simple and apart, of which the holes are in the outer one and not in one another. -/
structure HoledPolygon (outer : List (Vec α)) (holes : List (List (Vec α))) : Prop where
  flat : ∃ normal : Vec α, normal ≠ Vec.zero ∧ ∃ d, InPlane normal d (outer ++ holes.flatten)
  border : SimplePolygon outer
  hollow : ∀ k ∈ holes, SimplePolygon k
  apart : (outer :: holes).Pairwise fun j k => ∀ e ∈ edges j, ∀ f ∈ edges k, ∀ w, OnEdge e w → ¬OnEdge f w
  inside : ∀ k ∈ holes, ∀ p ∈ k, windsAbout outer outer p ≠ 0
  unnested : holes.Pairwise fun j k => (∀ p ∈ k, windsAbout outer j p = 0) ∧ ∀ p ∈ j, windsAbout outer k p = 0

def loopRings (outer : List (Vec α)) (holes : List (List (Vec α))) : List (Ring α) :=
  Triangulation.pieces ((outer :: holes).map List.length)
    (Triangulation.projected (.of (loopNormal outer)) (outer ++ holes.flatten))

def outerRing (outer : List (Vec α)) (holes : List (List (Vec α))) : Ring α := (loopRings outer holes).headD []

def holeRings (outer : List (Vec α)) (holes : List (List (Vec α))) : List (Nat × Ring α) :=
  ((loopRings outer holes).tail.zipIdx 1).map fun k => (k.2, k.1)

/-- The triangles make up what of a polygon is in no hole. -/
structure CutAround (outer : List (Vec α)) (holes : List (List (Vec α))) (ts : List Triangle) : Prop where
  count : ts.length + 2 = (outer ++ holes.flatten).length + 2 * holes.length
  apart : ts.Pairwise fun t u =>
    ∀ w, t.Inside (outer ++ holes.flatten) w → ¬u.Inside (outer ++ holes.flatten) w
  inside : ∀ t ∈ ts, ∀ w, t.Inside (outer ++ holes.flatten) w → windsAbout outer outer w ≠ 0
  aside : ∀ t ∈ ts, ∀ w, t.Inside (outer ++ holes.flatten) w →
    ∀ k ∈ holes, windsAbout outer k w = 0 ∧ ∀ e ∈ edges k, ¬OnEdge e w

variable [IsStrictOrderedRing α] {outer : List (Vec α)} {holes : List (List (Vec α))}

section Polygon
variable (polygon : HoledPolygon outer holes)
include polygon

theorem polygonHoled : Plane.Holed (outer.map (laid (.of (loopNormal outer))))
    (holes.map fun k => k.map (laid (.of (loopNormal outer)))) := by
  obtain ⟨n, some, d, level⟩ := polygon.flat
  have inOuter : InPlane n d outer := fun p mem => level p (List.mem_append_left _ mem)
  have inHole {k} (mem : k ∈ holes) : InPlane n d k := fun p here =>
    level p (List.mem_append_right _ (List.mem_flatten.mpr ⟨k, mem, here⟩))
  have seen := normalAxis some inOuter (dominantSome (polygonNormal polygon.border))
  have aloof {j k : List (Vec α)} (first : InPlane n d j) (second : InPlane n d k)
      (apart : ∀ e ∈ edges j, ∀ f ∈ edges k, ∀ w, OnEdge e w → ¬OnEdge f w) :
      Plane.Aloof (j.map (laid (.of (loopNormal outer)))) (k.map (laid (.of (loopNormal outer)))) := by
    intro e edge f edge' w on onward
    obtain ⟨e, here, rfl⟩ := mappedEdge edge
    obtain ⟨f, there, rfl⟩ := mappedEdge edge'
    have inside := edgesInside here
    have inside' := edgesInside there
    obtain ⟨v, one, two, -⟩ := laidMeet seen ⟨first _ inside.1, first _ inside.2⟩
      ⟨second _ inside'.1, second _ inside'.2⟩ on onward
    exact apart e here f there v one two
  obtain ⟨outside, among⟩ := List.pairwise_cons.mp polygon.apart
  refine ⟨polygonLaid polygon.border inOuter seen, List.forall_mem_map.mpr fun k mem => ?_,
    List.forall_mem_map.mpr fun k mem => aloof inOuter (inHole mem) (outside k mem),
    List.forall_mem_map.mpr fun k mem => List.forall_mem_map.mpr (polygon.inside k mem), ?_⟩
  · exact polygonLaid (polygon.hollow k mem) (inHole mem) seen
  · refine List.pairwise_map.mpr ((among.and polygon.unnested).imp_of_mem fun {j k} first second apart => ?_)
    exact ⟨aloof (inHole first) (inHole second) apart.1, List.forall_mem_map.mpr apart.2.1,
      List.forall_mem_map.mpr apart.2.2⟩

end Polygon

omit [IsStrictOrderedRing α] in
theorem loopRingsLaid (outer : List (Vec α)) (holes : List (List (Vec α))) :
    loopRings outer holes = outerRing outer holes :: (holeRings outer holes).map (·.2) ∧
      (outerRing outer holes).map Node.place = outer.map (laid (.of (loopNormal outer))) ∧
        (holeRings outer holes).map (fun k => k.2.map Node.place) =
          holes.map fun k => k.map (laid (.of (loopNormal outer))) := by
  have laidOut : (loopRings outer holes).map (List.map Node.place) =
      (outer :: holes).map (List.map (laid (.of (loopNormal outer)))) := by
    rw [loopRings, piecesMap, projectedLaid, ← List.flatten_cons, List.map_flatten]
    conv_rhs => rw [← piecesWhole ((outer :: holes).map _)]
    rw [List.map_map]
    simp [Function.comp_def]
  unfold outerRing holeRings
  generalize loopRings outer holes = rings at laidOut ⊢
  cases rings with
  | nil => simp at laidOut
  | cons ring rest =>
    rw [List.map_cons, List.map_cons, List.cons.injEq] at laidOut
    have numbered : ((rest.zipIdx 1).map fun k => (k.2, k.1)).map (·.2) = rest := by
      rw [List.map_map]
      exact List.zipIdx_map_fst 1 rest
    refine ⟨congrArg (ring :: ·) numbered.symm, laidOut.1, ?_⟩
    rw [← laidOut.2]
    conv_rhs => rw [← numbered, List.map_map]
    rfl

section Polygon
variable (polygon : HoledPolygon outer holes)
include polygon

theorem loopsLeft : 0 < Plane.sweptArea ((outerRing outer holes).map Node.place) :=
  (loopRingsLaid outer holes).2.1 ▸ (polygonLeft polygon.border).2

theorem loopsHoled : Plane.Holed ((outerRing outer holes).map Node.place)
    ((holeRings outer holes).map fun k => k.2.map Node.place) := by
  obtain ⟨-, border, hollow⟩ := loopRingsLaid outer holes
  rw [border, hollow]
  exact polygonHoled polygon

theorem triangulateLoops (root : ∀ x : α, 0 < x → 0 < Roots.root x) :
    triangulate 0 (outer ++ holes.flatten) ((outer :: holes).map List.length) =
      Triangulation.ofRings 0 (outerRing outer holes) (holeRings outer holes) := by
  have sizes : ((outer :: holes).map List.length).sum = (outer ++ holes.flatten).length := by
    simp [List.length_flatten]
  have large : ((outer :: holes).map List.length).zipIdx.find? (·.1 < 3) = none := by
    refine List.find?_eq_none.mpr fun x mem => ?_
    obtain ⟨k, here, same⟩ := List.mem_map.mp (List.fst_mem_of_mem_zipIdx mem)
    have enough : 3 ≤ k.length := by
      rcases List.mem_cons.mp here with rfl | hole
      · exact polygon.border.enough
      · exact (polygon.hollow k hole).enough
    rw [decide_eq_true_iff]
    omega
  have finite : (outer ++ holes.flatten).any (!·.isFinite) = false := by
    rw [List.any_eq_false]
    exact fun p _ => Bool.false_ne_true
  have first : (outer ++ holes.flatten).take (((outer :: holes).map List.length).headD 0) = outer := List.take_left
  have long : ¬(loopNormal outer).length ≤ 0 := (root _ (dotPositive (polygonNormal polygon.border))).not_ge
  obtain ⟨ring, rest, loops⟩ : ∃ ring rest, loopRings outer holes = ring :: rest :=
    ⟨_, _, (loopRingsLaid outer holes).1⟩
  unfold outerRing holeRings
  rw [loops]
  unfold loopRings Triangulation.projected at loops
  simp only [triangulate, sizes, ne_eq, not_true_eq_false, if_false, large, finite, Bool.false_eq_true, first, loops,
    if_neg long]
  rfl

end Polygon

/-- What is known of a polygon when it is cut, seen at a tilt that is slight for a further point too. -/
structure HoledRun (outer : List (Vec α)) (holes : List (List (Vec α))) (w : α × α) (s : α) (whole : Ring α)
    (ts : List (Node α × Node α × Node α)) : Prop where
  slight : Plane.Slight s (w :: (outer ++ holes.flatten).map (laid (.of (loopNormal outer))))
  bridged : Bridged (outerRing outer holes) (joinOrder (holeRings outer holes)) whole
  joined : Joined s (outerRing outer holes) (joinOrder (holeRings outer holes)) whole
  inside : whole ⊆ Triangulation.projected (.of (loopNormal outer)) (outer ++ holes.flatten)
  clipped : Plane.Clipped (Node.spot s) whole ts
  done : triangulate 0 (outer ++ holes.flatten) ((outer :: holes).map List.length) =
    .ok (ts.map fun t => (cornerOf t).triangle)

omit [IsStrictOrderedRing α] in
theorem loopsInside (outer : List (Vec α)) (holes : List (List (Vec α))) :
    (outerRing outer holes).map Node.place ⊆ (outer ++ holes.flatten).map (laid (.of (loopNormal outer))) ∧
      ∀ k ∈ holeRings outer holes,
        k.2.map Node.place ⊆ (outer ++ holes.flatten).map (laid (.of (loopNormal outer))) := by
  obtain ⟨-, border, hollow⟩ := loopRingsLaid outer holes
  rw [border, List.map_append]
  refine ⟨List.subset_append_left .., fun k mem => ?_⟩
  have here := List.mem_map_of_mem (f := fun k : Nat × Ring α => k.2.map Node.place) mem
  rw [hollow] at here
  obtain ⟨j, given, same⟩ := List.mem_map.mp here
  rw [← same]
  exact List.subset_append_of_subset_right _ (List.map_subset _ fun p member => List.mem_flatten.mpr ⟨j, given, member⟩)

section Polygon
variable (polygon : HoledPolygon outer holes)
include polygon

theorem polygonRun (root : ∀ x : α, 0 < x → 0 < Roots.root x)
    (clear : Clear (outerRing outer holes) (joinOrder (holeRings outer holes))) (w : α × α) :
    ∃ s whole ts, HoledRun outer holes w s whole ts := by
  obtain ⟨s, -, slight⟩ := Plane.tiltSlight (w :: (outer ++ holes.flatten).map (laid (.of (loopNormal outer))))
  obtain ⟨inside, inside'⟩ := loopsInside outer holes
  have loops := (loopRingsLaid outer holes).1
  have holed := loopsHoled polygon
  obtain ⟨whole, ts, bridged, joined, clipped, done⟩ := ringsHoled holed (loopsLeft polygon) slight
    (List.subset_cons_of_subset _ inside) (fun k mem => List.subset_cons_of_subset _ (inside' k mem)) clear
  refine ⟨s, whole, ts, slight, bridged, joined, ?_, clipped, (triangulateLoops polygon root).trans done⟩
  have part (r) (mem : r ∈ loopRings outer holes) :=
    Triangulation.piecesSubset _ (Triangulation.projected (.of (loopNormal outer)) (outer ++ holes.flatten)) r mem
  rw [loops] at part
  refine Triangulation.attachAllSubset (fun k mem => ?_) (part _ (List.mem_cons_self ..)) (bridgedRun bridged)
  have perm := joinOrderPerm fun k mem => holed.holes _ (List.mem_map_of_mem mem)
  obtain ⟨j, given, rfl⟩ := List.mem_map.mp (perm.mem_iff.mp mem)
  exact fun x member => part j.2 (List.mem_cons_of_mem _ (List.mem_map_of_mem given))
    ((sameMember (holeSame j.2)).mp member)

theorem runAside {s : α} {whole : Ring α} {ts : List (Node α × Node α × Node α)} {w : Vec α}
    (run : HoledRun outer holes (laid (.of (loopNormal outer)) w) s whole ts) {t} (mem : t ∈ ts)
    (inside : (cornerOf t).triangle.Inside (outer ++ holes.flatten) w) :
    windsAbout outer outer w ≠ 0 ∧ ∀ k ∈ holes, windsAbout outer k w = 0 ∧ ∀ e ∈ edges k, ¬OnEdge e w := by
  obtain ⟨within, within'⟩ := loopsInside outer holes
  obtain ⟨-, border, hollow⟩ := loopRingsLaid outer holes
  have part : whole.map Node.place ⊆ (outer ++ holes.flatten).map (laid (.of (loopNormal outer))) := by
    rw [← projectedLaid]
    exact List.map_subset _ run.inside
  obtain ⟨once, none⟩ := wholeAside (loopsHoled polygon) (loopsLeft polygon) run.slight (List.subset_cons_of_subset _ within)
    (fun k mem => List.subset_cons_of_subset _ (within' k mem)) run.joined run.clipped
    (List.subset_cons_of_subset _ part) (List.mem_cons_self ..) mem (partSpots run.inside run.clipped mem inside)
  rw [border] at once
  refine ⟨once.trans_ne one_ne_zero, fun k given => ?_⟩
  have here := List.mem_map_of_mem (f := fun k => k.map (laid (.of (loopNormal outer)))) given
  rw [← hollow] at here
  obtain ⟨j, known, same⟩ := List.mem_map.mp here
  obtain ⟨zero, off⟩ := none j known
  rw [same] at zero off
  exact ⟨zero, fun e edge on => off _ (edgeMapped (laid _) edge) (onLaid _ on)⟩

/-- A bridge adds an edge each way, so that there are two triangles more for each hole. -/
theorem runCount {s : α} {w : α × α} {whole : Ring α} {ts : List (Node α × Node α × Node α)}
    (run : HoledRun outer holes w s whole ts) :
    ts.length + 2 = (outer ++ holes.flatten).length + 2 * holes.length := by
  obtain ⟨-, border, hollow⟩ := loopRingsLaid outer holes
  have holed := loopsHoled polygon
  have perm := (joinOrderPerm fun k mem => holed.holes _ (List.mem_map_of_mem mem)).map fun k => k.2.length + 2
  have first : (outerRing outer holes).length = outer.length := by simpa using congrArg List.length border
  have sizes := congrArg (fun l => (l.map fun k : List (α × α) => k.length + 2).sum) hollow
  simp only [List.map_map, Function.comp_def, List.length_map] at sizes perm
  rw [Plane.clippedLength run.clipped, run.joined.size, perm.sum_eq, first]
  simp only [sameSize (holeSame _), sizes, List.sum_map_add, List.map_const', List.sum_replicate, List.length_append,
    List.length_flatten, smul_eq_mul]
  omega

theorem polygonSought : Sought (outerRing outer holes) (joinOrder (holeRings outer holes)) := by
  obtain ⟨s, -, slight⟩ := Plane.tiltSlight ((outer ++ holes.flatten).map (laid (.of (loopNormal outer))))
  obtain ⟨inside, inside'⟩ := loopsInside outer holes
  exact ringsSought (loopsHoled polygon) (loopsLeft polygon) slight inside inside'

theorem polygonCut (root : ∀ x : α, 0 < x → 0 < Roots.root x)
    (clear : Clear (outerRing outer holes) (joinOrder (holeRings outer holes))) :
    ∃ whole ts, Bridged (outerRing outer holes) (joinOrder (holeRings outer holes)) whole ∧
      triangulate 0 (outer ++ holes.flatten) ((outer :: holes).map List.length) = .ok ts ∧ CutAround outer holes ts := by
  obtain ⟨s, whole, ts, run⟩ := polygonRun polygon root clear (0, 0)
  have aside (t) (mem : t ∈ ts.map fun t => (cornerOf t).triangle) (w : Vec α)
      (inside : t.Inside (outer ++ holes.flatten) w) : windsAbout outer outer w ≠ 0 ∧
        ∀ k ∈ holes, windsAbout outer k w = 0 ∧ ∀ e ∈ edges k, ¬OnEdge e w := by
    -- the tilt has to be slight for the point as well
    obtain ⟨s', whole', us, run'⟩ := polygonRun polygon root clear (laid (.of (loopNormal outer)) w)
    rw [Except.ok.inj (run.done.symm.trans run'.done)] at mem
    obtain ⟨u, mem', rfl⟩ := List.mem_map.mp mem
    exact runAside polygon run' mem' inside
  refine ⟨whole, _, run.bridged, run.done, ?_, ?_, fun t mem w inside => (aside t mem w inside).1,
    fun t mem w inside => (aside t mem w inside).2⟩
  · rw [List.length_map]
    exact runCount polygon run
  · refine List.pairwise_map.mpr ((Plane.clippedApart run.clipped run.joined.filled).imp_of_mem
      fun {t u} first second apart w one two => apart _ ⟨partSpots run.inside run.clipped first one, ?_⟩)
    exact partSpots run.inside run.clipped second two

end Polygon

/-- Bridges are found and meet the ring in their ends only as long as they are fair, and where all of them are, each meets
the loops in its ends only and the polygon is cut. -/
theorem holedPolygonCut (root : ∀ x : α, 0 < x → 0 < Roots.root x) (polygon : HoledPolygon outer holes) :
    Sought (outerRing outer holes) (joinOrder (holeRings outer holes)) ∧
      (Clear (outerRing outer holes) (joinOrder (holeRings outer holes)) →
        ∃ whole ts, Bridged (outerRing outer holes) (joinOrder (holeRings outer holes)) whole ∧
          triangulate 0 (outer ++ holes.flatten) ((outer :: holes).map List.length) = .ok ts ∧ CutAround outer holes ts) :=
  ⟨polygonSought polygon, polygonCut polygon root⟩

def Vec.above (p : Vec α) : Node α := ⟨0, p.x, p.y⟩

theorem aboveMeet {e f : Vec α × Vec α} {w : Vec α} (on : OnEdge e w) (on' : OnEdge f w) :
    Node.meet 0 e.1.above e.2.above f.1.above f.2.above = true :=
  (meetExact ..).mpr ⟨_, onLaid ⟨.z, false⟩ on, onLaid ⟨.z, false⟩ on'⟩

theorem aboveCorner {e f : Vec α × Vec α} {w : Vec α} (joined : e.2 = f.1)
    (turns : Node.turn e.1.above e.2.above f.2.above ≠ 0) (on : OnEdge e w) (on' : OnEdge f w) : w = e.2 := by
  have line := Plane.segmentLine (onLaid ⟨.z, false⟩ on)
  obtain ⟨t, -, -, rfl⟩ := on'
  rw [laidPart, Plane.turnAlong, joined, Plane.turnSecond, zero_add, sub_zero, ← joined, mul_eq_zero] at line
  have start (x y : α) : x + (y - x) * 0 = x := by ring
  rw [line.resolve_right turns, joined]
  exact sameVec fun i => by cases i <;> exact start _ _

theorem simpleAbove {points : List (Vec α)} (enough : 3 ≤ points.length)
    (flat : ∃ normal : Vec α, normal ≠ Vec.zero ∧ ∃ d, InPlane normal d points) (nodup : points.Nodup)
    (turns : ∀ e ∈ edges points, ∀ f ∈ edges points, e.2 = f.1 → Node.turn e.1.above e.2.above f.2.above ≠ 0)
    (apart : ∀ e ∈ edges points, ∀ f ∈ edges points, e ≠ f → e.2 ≠ f.1 → f.2 ≠ e.1 →
      Node.meet 0 e.1.above e.2.above f.1.above f.2.above = false) : SimplePolygon points where
  enough := enough
  flat := flat
  nodup := nodup
  joined := fun e mem f mem' same _ on on' => aboveCorner same (turns e mem f mem' same) on on'
  apart := fun e mem f mem' differ after before _ on on' =>
    Bool.false_ne_true ((apart e mem f mem' differ after before).symm.trans (aboveMeet on on'))

/-- A thin hole that begins at a tip. -/
def slit : List (Vec ℚ) := [⟨0, 0, 0⟩, ⟨20, -1, 0⟩, ⟨20, 1, 0⟩]

theorem levelFlat (points : List (Vec ℚ)) (level : ∀ p ∈ points, p.z = 0) :
    ∃ normal : Vec ℚ, normal ≠ Vec.zero ∧ ∃ d, InPlane normal d points :=
  ⟨⟨0, 0, 1⟩, by decide, 0, fun p mem => by simp [Vec.dot, level p mem]⟩

theorem slitSimple : SimplePolygon slit :=
  simpleAbove (by decide) (levelFlat _ (by decide)) (by decide) (by decide +kernel) (by decide +kernel)

/-- A fence around it, of which corners on the left are seen from the tip. -/
def fence : List (Vec ℚ) := [⟨-50, -50, 0⟩, ⟨60, 0, 0⟩, ⟨-50, 50, 0⟩]

theorem holedAbove {outer : List (Vec ℚ)} {hole : List (Vec ℚ)} (border : SimplePolygon outer) (hollow : SimplePolygon hole)
    (level : ∀ p ∈ outer ++ hole, p.z = 0) (apart : ∀ e ∈ edges outer, ∀ f ∈ edges hole,
      Node.meet 0 e.1.above e.2.above f.1.above f.2.above = false)
    (inside : ∀ p ∈ hole, windsAbout outer outer p ≠ 0) : HoledPolygon outer [hole] where
  flat := levelFlat _ (by simpa using level)
  border := border
  hollow := by simpa using hollow
  apart := List.pairwise_pair.mpr fun e mem f mem' _ on on' =>
    Bool.false_ne_true ((apart e mem f mem').symm.trans (aboveMeet on on'))
  inside := by simpa using inside
  unnested := List.pairwise_singleton ..

theorem fenceHoled : HoledPolygon fence [slit] :=
  holedAbove (simpleAbove (by decide) (levelFlat _ (by decide)) (by decide) (by decide +kernel) (by decide +kernel))
    slitSimple (by decide) (by decide +kernel) (by decide +kernel)

theorem fenceClear : Clear (outerRing fence [slit]) (joinOrder (holeRings fence [slit])) := by
  have ring : outerRing fence [slit] = [⟨0, -50, -50⟩, ⟨1, 60, 0⟩, ⟨2, -50, 50⟩] := by decide +kernel
  have hole : joinOrder (holeRings fence [slit]) = [(1, [⟨3, 0, 0⟩, ⟨5, 20, 1⟩, ⟨4, 20, -1⟩])] := by decide +kernel
  have chosen : Ring.bridge? (0 : ℚ) ⟨3, 0, 0⟩ [⟨0, -50, -50⟩, ⟨1, 60, 0⟩, ⟨2, -50, 50⟩] = some 2 := by decide +kernel
  rw [ring, hole]
  intro h i a t b first found corner
  cases first
  cases chosen.symm.trans found
  cases corner
  refine ⟨⟨Or.inl (by decide), Or.inr ?_⟩, trivial⟩
  unfold Plane.Opens
  decide +kernel

theorem fenceCut : HoledPolygon fence [slit] ∧ Sought (outerRing fence [slit]) (joinOrder (holeRings fence [slit])) ∧
    ∃ whole ts, Bridged (outerRing fence [slit]) (joinOrder (holeRings fence [slit])) whole ∧
      triangulate 0 (fence ++ [slit].flatten) ([fence, slit].map List.length) = .ok ts ∧ CutAround fence [slit] ts :=
  ⟨fenceHoled, (holedPolygonCut ratRoot fenceHoled).1, (holedPolygonCut ratRoot fenceHoled).2 fenceClear⟩

/-- A dart around it. Of the corners on the left of the tip one is hidden and the other one is more to the right than the
tip, and the nearest of all is one behind the hole. -/
def dart : List (Vec ℚ) := [⟨-100, 50, 0⟩, ⟨20, -50, 0⟩, ⟨30, 0, 0⟩, ⟨-40, 14, 0⟩]

theorem dartHoled : HoledPolygon dart [slit] :=
  holedAbove (simpleAbove (by decide) (levelFlat _ (by decide)) (by decide) (by decide +kernel) (by decide +kernel))
    slitSimple (by decide) (by decide +kernel) (by decide +kernel)

theorem dartUnbridged (whole : Ring ℚ) : ¬Bridged (outerRing dart [slit]) (joinOrder (holeRings dart [slit])) whole := by
  have ring : outerRing dart [slit] = [⟨0, -100, 50⟩, ⟨1, 20, -50⟩, ⟨2, 30, 0⟩, ⟨3, -40, 14⟩] := by decide +kernel
  have hole : joinOrder (holeRings dart [slit]) = [(1, [⟨4, 0, 0⟩, ⟨6, 20, 1⟩, ⟨5, 20, -1⟩])] := by decide +kernel
  have chosen : Ring.bridge? (0 : ℚ) ⟨4, 0, 0⟩ [⟨0, -100, 50⟩, ⟨1, 20, -50⟩, ⟨2, 30, 0⟩, ⟨3, -40, 14⟩] = some 2 := by
    decide +kernel
  rw [ring, hole]
  intro bridged
  cases bridged with
  | next found here outer aside later =>
    cases chosen.symm.trans found
    cases here
    have through : Meets (⟨4, 0, 0⟩ : Node ℚ) ⟨2, 30, 0⟩ [⟨4, 0, 0⟩, ⟨6, 20, 1⟩, ⟨5, 20, -1⟩] (20, 0) := by
      refine ⟨Plane.onSegment.mpr ⟨2 / 3, by norm_num, by norm_num, by norm_num [Node.place]⟩,
        (⟨6, 20, 1⟩, ⟨5, 20, -1⟩), by decide, ?_⟩
      exact Plane.onSegment.mpr ⟨1 / 2, by norm_num, by norm_num, by norm_num [Node.place]⟩
    exact absurd (aside.1 _ through) (by decide)

theorem dartStuck : HoledPolygon dart [slit] ∧
    (∀ whole, ¬Bridged (outerRing dart [slit]) (joinOrder (holeRings dart [slit])) whole) ∧
    triangulate 0 (dart ++ [slit].flatten) ([dart, slit].map List.length) = .error (.noEar 8) :=
  ⟨dartHoled, dartUnbridged, by decide +kernel⟩

end SceneStream.Geometry
