import SceneStream.Proofs.Geometry.Nurbs.Shares
import SceneStream.Proofs.Primitive.Carry
import SceneStream.Primitive.Nurbs

/-! Values on a surface and its positions, in exact arithmetic: they are blended alike, so that what follows the
positions of the control points follows those of the surface. -/
namespace SceneStream.Geometry
open SceneStream.Primitive (shared sharedAt)

section Exact
variable {α : Type} [Field α] [LinearOrder α] [Roots α]

/-- The shares of a sample: each has one control point for its number and for its place in the segment, they add up to
one, and by them the control points become the point, and what follows the control points what follows the point. -/
structure NuPatch.Follows (p : NuPatch α) (seg : Segment α) (shares : List (Influence α)) (point : Vec α) : Prop where
  names : ∀ i ∈ shares, (p.block seg)[i.place]? = some i.control ∧ i.control < p.points.length
  whole : (shares.map Influence.weight).sum = 1
  coordinates : ∀ axis, (shares.map fun i => i.weight * (p.position i.control).get axis).sum = point.get axis
  affine : ∀ fs, shared ((p.block seg).flatMap fun i => Affine.values fs (p.position i)).toArray fs.length shares =
    .ok (Affine.values fs point)

section Shares
variable (p : NuPatch α) (seg : Segment α) {shares : List (Influence α)} {point : Vec α}
  (names : ∀ i ∈ shares, (p.block seg)[i.place]? = some i.control)
  (sums : ∀ f : Affine α, (shares.map fun i => i.weight * f.value (p.position i.control)).sum = f.value point)
  (fs : List (Affine α))
include names sums

theorem sharedAtValue {f : Affine α} {k : Nat} (found : fs[k]? = some f) :
    sharedAt ((p.block seg).flatMap fun i => Affine.values fs (p.position i)).toArray fs.length shares k =
      .ok (f.value point) := by
  have inside := (List.getElem?_eq_some_iff.mp found).1
  have items := Outcome.mapsAll shares (e := id) (f := fun i => Part.item
    ((p.block seg).flatMap fun i => Affine.values fs (p.position i)).toArray (i.place * fs.length + k))
    (g := fun i => f.value (p.position i.control)) fun i share => by
      have entry := valueAt (f := fun i => Affine.values fs (p.position i)) (fun _ _ => List.length_map ..)
        (names i share) inside
      rw [Affine.values, List.getElem?_map, found] at entry
      rw [id, Part.item, List.getElem?_toArray, entry]
      rfl
  rw [List.map_id] at items
  rw [sharedAt, items]
  refine congrArg Except.ok ?_
  rw [weightedExact, List.zipWith_map, List.zipWith_self, ← sums]

theorem sharedValues :
    shared ((p.block seg).flatMap fun i => Affine.values fs (p.position i)).toArray fs.length shares =
      .ok (Affine.values fs point) := by
  have all := Outcome.mapsAll fs.zipIdx (e := Prod.snd) (g := fun x => x.1.value point) fun x mem =>
    sharedAtValue p seg names sums fs (List.mem_zipIdx_iff_getElem?.mp mem)
  have same : fs.zipIdx.map (fun x => x.1.value point) = Affine.values fs point := by
    calc _ = Affine.values (fs.zipIdx.map Prod.fst) point := (List.map_map ..).symm
      _ = _ := by rw [List.zipIdx_map_fst]
  rw [List.zipIdx_map_snd, ← List.range_eq_range', same] at all
  exact all

end Shares

theorem evaluateFollows {p : NuPatch α} (fits : p.Fits) (weigh : ∀ q ∈ p.points, q.w ≠ 0) {seg : Segment α}
    (has : p.Has seg) {s t : α} (weight : (p.homogeneous seg s t).w ≠ 0) :
    p.Follows seg (p.evaluate seg (p.held seg) s t).influences (p.evaluate seg (p.held seg) s t).point := by
  have names := NuPatch.influenceNames fits has s t
  have sums := NuPatch.influenceSum fits weigh has weight
  refine ⟨names, ?_, fun axis => ?_, sharedValues p seg (fun i mem => (names i mem).1) sums⟩
  · simpa [Affine.value] using sums ⟨0, 0, 0, 1⟩
  · cases axis with
    | x => simpa [Affine.value, Vec.get] using sums ⟨1, 0, 0, 0⟩
    | y => simpa [Affine.value, Vec.get] using sums ⟨0, 1, 0, 0⟩
    | z => simpa [Affine.value, Vec.get] using sums ⟨0, 0, 1, 0⟩

/-- Bilinear, bicubic and rational patches blend coordinates as they blend positions. A variable that follows the control
points follows the surface; a constant part of it does so on a bicubic patch where the weights of the bases add up to
one. -/
theorem blendsFollow :
    (∀ (corners : Quad (Vec α)) (tu tv : Nat), Patch.bilinearBlend (corners.toList.flatMap Vec.toList) 3 tu tv =
      (Patch.bilinearGrid corners tu tv).map fun g => g.points.flatMap Vec.toList) ∧
    (∀ (control : List (Vec α)) (ub vb : Basis α) (tu tv : Nat),
      (Patch.bicubicBlend (control.flatMap Vec.toList) 3 ub vb tu tv).toOption =
        ((Patch.bicubicGrid control ub vb tu tv).map fun g => g.points.flatMap Vec.toList).toOption) ∧
    (∀ (u v : NurbsAxis α) (points : List (Quad α)) (p : NuPatch α), NuPatch.make u v points = .ok p →
      ∀ seg ∈ p.segments, ∀ (tu tv : Nat) (g : SegmentGrid α), p.sample seg tu tv = .ok g →
        ∀ (k : Nat) (part : α × α), g.grid.params[k]? = some part →
          (p.homogeneous seg (NuPatch.place seg part).1 (NuPatch.place seg part).2).w ≠ 0 →
            ∃ shares point, g.influences[k]? = some shares ∧ g.grid.points[k]? = some point ∧
              p.Follows seg shares point) ∧
    (∀ (fs : List (Affine α)), fs ≠ [] → ∀ (corners : Quad (Vec α)) (tu tv : Nat),
      Patch.bilinearBlend (corners.toList.flatMap (Affine.values fs)) fs.length tu tv =
        (Patch.bilinearGrid corners tu tv).map fun g => g.points.flatMap (Affine.values fs)) ∧
    (∀ (fs : List (Affine α)), fs ≠ [] → ∀ (control : List (Vec α)) (ub vb : Basis α) (tu tv : Nat),
      (∀ part ∈ (Grid.parameters tu tv : List (α × α)), ∀ f ∈ fs, f.constant = 0 ∨
        (ub.weights part.1).1.toList.sum * (vb.weights part.2).1.toList.sum = 1) →
      (Patch.bicubicBlend (control.flatMap (Affine.values fs)) fs.length ub vb tu tv).toOption =
        ((Patch.bicubicGrid control ub vb tu tv).map fun g => g.points.flatMap (Affine.values fs)).toOption) := by
  have axes : Affine.values Affine.axes = (Vec.toList : Vec α → List α) := funext Affine.axesValues
  refine ⟨fun corners tu tv => ?_, fun control ub vb tu tv => ?_, fun u v points p made seg mem tu tv g done k part found
    weight => ?_, Patch.bilinearFollows, Patch.bicubicFollows⟩
  · exact axes ▸ Patch.bilinearFollows Affine.axes (List.cons_ne_nil _ _) corners tu tv
  · exact axes ▸ Patch.bicubicFollows Affine.axes (List.cons_ne_nil _ _) control ub vb tu tv (by simp [Affine.axes])
  · obtain ⟨-, -, fits⟩ := NuPatch.makeFits made
    obtain ⟨rfl, -, -, -, weigh⟩ := NuPatch.makeIff.mp made
    have known (q : Quad α) (mem : q ∈ points) : q.w ≠ 0 := by simpa [sameExact] using (weigh q mem).2
    obtain ⟨point, shares⟩ := NuPatch.sampleAt done found
    exact ⟨_, _, shares, point, evaluateFollows fits known (NuPatch.segmentsHave fits mem) weight⟩

end Exact

/-- Control points of weight one on the left and of weight two on the right. -/
def NuPatch.uneven : NuPatch ℚ :=
  ⟨⟨2, 2, [0, 0, 1, 1], 0, 1⟩, ⟨2, 2, [0, 0, 1, 1], 0, 1⟩, [⟨0, 0, 0, 1⟩, ⟨2, 0, 2, 2⟩, ⟨0, 1, 0, 1⟩, ⟨2, 2, 4, 2⟩]⟩

def NuPatch.unevenWhole : Segment ℚ := ⟨⟨1, 0, 0, 1⟩, ⟨1, 0, 0, 1⟩, 0⟩

/-- Half way along the lower edge the right half weighs twice as much. -/
theorem unevenFollows : ∃ g shares, NuPatch.uneven.sample NuPatch.unevenWhole 2 1 = .ok g ∧
    g.influences[1]? = some shares ∧ NuPatch.uneven.Follows NuPatch.unevenWhole shares ⟨2 / 3, 0, 2 / 3⟩ := by
  have made : NuPatch.make NuPatch.uneven.u NuPatch.uneven.v NuPatch.uneven.points = .ok .uneven := by decide +kernel
  have sampled : (NuPatch.uneven.sample NuPatch.unevenWhole 2 1).toOption.any (fun g =>
      g.grid.params[1]? = some (1 / 2, 0) ∧ g.grid.points[1]? = some ⟨2 / 3, 0, 2 / 3⟩) = true := by decide +kernel
  cases done : NuPatch.uneven.sample NuPatch.unevenWhole 2 1 with
  | error f =>
    rw [done] at sampled
    cases sampled
  | ok g =>
    rw [done] at sampled
    obtain ⟨part, place⟩ := of_decide_eq_true sampled
    obtain ⟨shares, point, found, there, follows⟩ := blendsFollow.2.2.1 _ _ _ _ made NuPatch.unevenWhole
      (by decide +kernel) 2 1 g done 1 (1 / 2, 0) part (by decide +kernel)
    cases there.symm.trans place
    exact ⟨g, shares, rfl, found, follows⟩

/-- The powers of a parameter are no weights that add up to one, and a constant does not stay one. -/
theorem powersScale : ¬∀ (f : Affine ℚ) (control : List (Vec ℚ)) (ub vb : Basis ℚ) (tu tv : Nat),
    (Patch.bicubicBlend (control.flatMap (Affine.values [f])) 1 ub vb tu tv).toOption =
      ((Patch.bicubicGrid control ub vb tu tv).map fun g => g.points.flatMap (Affine.values [f])).toOption := by
  intro all
  exact absurd (all ⟨0, 0, 0, 1⟩ (List.replicate 16 ⟨0, 0, 0⟩) ⟨Quad.identity, 4⟩ ⟨Quad.identity, 4⟩ 1 1)
    (by decide +kernel)

end SceneStream.Geometry
