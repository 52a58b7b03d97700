import SceneStream.Primitive.Nurbs
import SceneStream.Proofs.Geometry.Nurbs
import SceneStream.Proofs.Primitive.Carry

/-! Rational patches. All that a segment is sampled from is there, and so are the values that belong to
it: nothing is read past its end. -/
namespace SceneStream.Primitive
open SceneStream.Work SceneStream.Args SceneStream.Geometry
open SceneStream.Variables (Bound Fit)

theorem nurbsFaultKind (f : NurbsFault Float) : ¬ f.kind.Unexpected := by
  cases f with
  | grid f => exact gridFaultKind f
  | _ => nofun

theorem safeNurbsAxis (side : Side) : Safe (nurbsAxis side) :=
  safeBind (safePositive _) fun _ => safeBind (safePositive _) fun _ =>
    safeBind safeFloatArray fun _ => safeBind safeDouble fun _ => safeBind safeDouble fun _ =>
      safePure _

def patchCounts (p : NuPatch Float) : ValueCounts :=
  .nuPatch p.u.count p.u.order p.u.knots p.v.count p.v.order p.v.knots

theorem cornersInside {p : NuPatch Float} (fits : p.Fits) {seg : Segment Float} (has : p.Has seg) :
    ∀ i ∈ segmentCorners p seg, i < (patchCounts p).varying := by
  obtain ⟨⟨uLow, uHigh⟩, -⟩ := has.u
  obtain ⟨⟨vLow, vHigh⟩, -⟩ := has.v
  have uOrder := fits.u.order
  have vOrder := fits.v.order
  have uCount := fits.u.count
  have vCount := fits.v.count
  simp only [NurbsAxis.degree] at uLow vLow
  have across : p.u.count - p.u.degree + 1 = p.u.count + 2 - p.u.order := by
    simp only [NurbsAxis.degree]
    omega
  have corner (a b : Nat) (left : a ≤ 1) (low : b ≤ 1) :
      (seg.v.knot - p.v.degree + b) * (p.u.count - p.u.degree + 1) + (seg.u.knot - p.u.degree) + a <
        (patchCounts p).varying := by
    rw [across, Nat.add_assoc]
    refine inRow ?_ ?_
    all_goals
      simp only [NurbsAxis.degree]
      omega
  intro i mem
  simp only [segmentCorners, List.map_cons, List.map_nil, List.mem_cons, List.not_mem_nil,
    or_false] at mem
  rcases mem with rfl | rfl | rfl | rfl
  · exact corner 0 0 (by decide) (by decide)
  · exact corner 1 0 (by decide) (by decide)
  · exact corner 0 1 (by decide) (by decide)
  · exact corner 1 1 (by decide) (by decide)

theorem selectionInside {p : NuPatch Float} (fits : p.Fits) {seg : Segment Float}
    (has : p.Has seg) : (segmentSelection p seg).Inside (patchCounts p) := by
  have rows (n : Nat) : seg.index * n + n ≤ (patchCounts p).uniform * n := by
    rw [← Nat.succ_mul]
    exact Nat.mul_le_mul_right n has.index
  refine ⟨has.index, cornersInside fits has, NuPatch.blockInside has, rows 4, ?_⟩
  have all := rows (p.u.order * p.v.order)
  rw [← Nat.mul_assoc (patchCounts p).uniform] at all
  exact all

theorem shareInside {place k width each n : Nat} (share : place < each) (part : k < width)
    (sized : n = each * width) : place * width + k < n := by
  rw [sized, Nat.mul_comm each]
  exact inRow share part

theorem cornersEnds {p : NuPatch Float} {tu tv : Nat} {g : SegmentGrid Float}
    (sampled : p.Sampled tu tv g) {v : Variable} (four : v.doubles.length = 4 * v.width) :
    Outcome.Yields (fun l => l.length = (tu + 1) * (tv + 1) * v.width) (do
      let corners := Patch.quarters (← Part.leading (4 * v.width) v.doubles) v.width
      return g.spanParams.flatMap fun (s, t) => Patch.bilinearAt corners s t) := by
  rw [Part.leadingInside (Nat.le_of_eq four.symm), List.take_of_length_le (Nat.le_of_eq four)]
  refine (lengthEach fun x _ => Patch.bilinearAtLength four x.1 x.2).trans ?_
  rw [sampled.spanParams]

theorem pointsEnds {p : NuPatch Float} {tu tv : Nat} {g : SegmentGrid Float}
    (sampled : p.Sampled tu tv g) {v : Variable}
    (block : v.doubles.length = p.u.order * p.v.order * v.width) :
    Outcome.Yields (fun l => l.length = (tu + 1) * (tv + 1) * v.width)
      (g.influences.flatMapM (shared v.doubles.toArray v.width)) := by
  rw [← sampled.influences]
  refine Outcome.endsFlatMapM fun l shares => ?_
  refine Outcome.endsMapMLength List.length_range fun k mem => ?_
  refine Outcome.endsBind (P := fun _ => True) ?_ fun _ _ => trivial
  refine Outcome.endsMono (Outcome.endsMapM (Q := fun _ => True) fun i share => ?_)
    (fun _ => id) fun _ _ => trivial
  have there := shareInside (sampled.places l shares i share) (List.mem_range.mp mem) block
  rw [Part.itemInside (by rw [List.size_toArray]; exact there)]
  exact trivial

theorem segmentSpreadEnds {p : NuPatch Float} {seg : Segment Float} {tu tv : Nat}
    {g : SegmentGrid Float} (sampled : p.Sampled tu tv g) {v : Variable}
    (fits : v.Fits ((segmentSelection p seg).elements v.storage)) (spreads : Spreads v) :
    Outcome.Yields (fun l => l.length = (tu + 1) * (tv + 1) * v.width) (segmentSpread g v) := by
  obtain ⟨part, numbers⟩ := spreads
  have length := Variable.fitsNumbers fits numbers
  unfold segmentSpread
  cases storage : v.storage with
  | constant | uniform =>
    rw [storage] at part
    cases part
  | varying | faceVarying =>
    rw [storage] at length
    exact cornersEnds sampled length
  | vertex | faceVertex =>
    rw [storage] at length
    refine pointsEnds sampled (length.trans (congrArg (· * v.width) ?_))
    first | exact NuPatch.blockLength p seg | rfl

theorem segmentSurfaceEnds (kind : RequestKind) (s : Setting) {p : NuPatch Float} (fits : p.Fits)
    {vars : Variables} (fit : Fit (patchCounts p) vars) {seg : Segment Float} (has : p.Has seg) :
    Outcome.Yields (Emits vars false) (segmentSurface kind s p vars seg) := by
  unfold segmentSurface segmentMake
  simp only [NuPatch.fitsReaches fits has, Bool.not_true, Bool.false_eq_true, if_false]
  have inside := selectionInside fits has
  refine Outcome.endsBind (Outcome.endsMapError (fun f => rejectExpected (nurbsFaultKind f) _ _)
    fun g => NuPatch.sampleSampled) fun g sampled => ?_
  refine Outcome.endsMono (carryEnds ?_ (selectWholes fit inside.uniform) ?_) (fun _ => id)
    fun t carries => ?_
  · cases s.layout <;> rfl
  · intro y mem spreads
    obtain ⟨v, bound, same⟩ := Variables.selectFrom mem
    rw [same] at spreads ⊢
    rw [Surface.gridPositions kind s.layout sampled.grid]
    exact segmentSpreadEnds sampled (Variable.selectFits (fit _ bound) inside) spreads
  · exact emitsSelected (emitsCarried carries (Surface.gridSound kind s.layout sampled.grid)
      (Surface.gridNormal kind s.layout sampled.grid))

theorem safeNuPatchArgs : Safe nuPatchArgs :=
  safeBind (safeNurbsAxis _) fun _ => safeBind (safeNurbsAxis _) fun _ =>
    safeBind safeTokenList fun _ => safePure _

theorem rationalEnds (kind : RequestKind) (u v : NurbsAxis Float) (points : List (Quad Float)) :
    Outcome.Yields (fun p => p.u = u ∧ p.v = v ∧ p.Fits) (rational kind u v points) := by
  refine Outcome.endsBind (Outcome.endsMapError (fun f => rejectExpected (nurbsFaultKind f) _ _)
    fun p => NuPatch.makeFits) fun p ⟨u, v, fits⟩ => ?_
  simp only [NurbsAxis.fitsSpans fits.u, NurbsAxis.fitsSpans fits.v, Bool.and_self, Bool.not_true,
    Bool.false_eq_true, if_false]
  exact ⟨u, v, fits⟩

theorem nuPatchEnds (s : Setting) (r : Request) (d : Dictionary) :
    Declaring.Ends (Fails fun _ _ => False) (Gives fun _ => false) (nuPatch s r) d := by
  refine readBind safeNuPatchArgs fun x => boundBind fun e vars bound => boundLift bound ?_
  refine Outcome.endsMono (E := Problem.Expected) ?_ (fun _ => .inl) fun _ => id
  refine Outcome.endsBind (safeHomogeneous r.kind vars) fun points _ => ?_
  refine Outcome.endsBind (rationalEnds r.kind _ _ points) fun p ⟨u, v, fits⟩ => ?_
  have fit : Fit (patchCounts p) vars := by
    unfold patchCounts
    rw [u, v]
    exact Variables.boundFit bound
  refine Outcome.endsMap (Outcome.endsMapM fun seg mem =>
    segmentSurfaceEnds r.kind s fits fit (NuPatch.segmentsHave fits mem)) ?_
  rintro l each _ ⟨⟩
  exact each

end SceneStream.Primitive
