import SceneStream.Proofs.Geometry.Grid
import SceneStream.Variable.Counts

/-! A rational patch that is made has all the knots and points its segments are sampled from, and its
segments are as many as its spans. -/
namespace SceneStream.Geometry
open SceneStream.Outcome (okBind)
open Knots
variable {α : Type}

namespace NurbsAxis

structure Fits (a : NurbsAxis α) : Prop where
  order : 0 < a.order
  count : a.order ≤ a.count
  knots : a.knots.length = a.count + a.order

structure Begins (a : NurbsAxis α) (knot : Nat) : Prop where
  low : a.degree ≤ knot
  high : knot < a.count

theorem validateFits [Scalar α] {side : Side} {a : NurbsAxis α} (valid : a.validate side = .ok ()) : a.Fits := by
  unfold validate at valid
  dsimp only at valid
  split at valid
  · cases valid
  · rename_i order
    split at valid
    · cases valid
    · rename_i knots
      exact ⟨by omega, by omega, by omega⟩

theorem fitsReaches {a : NurbsAxis α} (fits : a.Fits) {knot : Nat} (begins : a.Begins knot) :
    a.reaches knot = true := by
  obtain ⟨order, count, knots⟩ := fits
  obtain ⟨low, high⟩ := begins
  simp only [reaches, Bool.and_eq_true, decide_eq_true_eq]
  simp only [degree] at low ⊢
  omega

theorem fitsSpans {a : NurbsAxis α} (fits : a.Fits) : a.spansFit = true := by
  obtain ⟨order, count, knots⟩ := fits
  simp only [spansFit, Bool.and_eq_true, decide_eq_true_eq]
  simp only [degree]
  omega

variable [Scalar α]

theorem startsBegin {a : NurbsAxis α} (fits : a.Fits) {i : Nat}
    (mem : i ∈ starts a.count a.order a.knots) : a.Begins i := by
  obtain ⟨order, count, -⟩ := fits
  have inside := (List.mem_filter.mp mem).1
  rw [List.mem_range'_1] at inside
  exact ⟨inside.1, by omega⟩

structure Has (a : NurbsAxis α) (s : Span α) : Prop where
  begins : a.Begins s.knot
  ordinal : s.ordinal < (starts a.count a.order a.knots).length

theorem spansHave {a : NurbsAxis α} (fits : a.Fits) {s : Span α} (mem : s ∈ a.spans) : a.Has s := by
  obtain ⟨⟨i, n⟩, place, rfl⟩ := List.mem_map.mp mem
  obtain ⟨-, bound, value⟩ := List.mem_zipIdx place
  refine ⟨startsBegin fits ?_, by simpa using bound⟩
  rw [value]
  exact List.getElem_mem _

theorem spansLength (a : NurbsAxis α) :
    a.spans.length = (starts a.count a.order a.knots).length := by
  simp [spans]

theorem spansRise (a : NurbsAxis α) : a.spans.Pairwise fun x y => x.ordinal < y.ordinal := by
  have all : a.spans.map Span.ordinal = List.range' 0 (starts a.count a.order a.knots).length := by
    rw [spans, List.map_map]
    exact List.zipIdx_map_snd ..
  have rising : (a.spans.map Span.ordinal).Pairwise (· < ·) := all ▸ List.pairwise_lt_range'
  exact List.pairwise_map.mp rising

theorem fitsCount {a : NurbsAxis α} (fits : a.Fits) :
    spanCount a.count a.order a.knots = (starts a.count a.order a.knots).length := by
  obtain ⟨order, count, knots⟩ := fits
  exact if_neg (by omega)

end NurbsAxis

namespace NuPatch

theorem blockLength (p : NuPatch α) (s : Segment α) :
    (p.block s).length = p.u.order * p.v.order := by
  simp [block, List.length_flatMap, List.map_const', Nat.mul_comm]

variable [Scalar α]

structure Fits (p : NuPatch α) : Prop where
  u : p.u.Fits
  v : p.v.Fits
  points : p.points.length = p.u.count * p.v.count

theorem makeFits {u v : NurbsAxis α} {points : List (Quad α)} {p : NuPatch α}
    (made : make u v points = .ok p) : p.u = u ∧ p.v = v ∧ p.Fits := by
  obtain ⟨_, uValid, next⟩ := okBind made
  obtain ⟨_, vValid, last⟩ := okBind next
  dsimp only at last
  split at last
  · cases last
  · rename_i sized
    split at last
    · cases last
    · cases last
      exact ⟨rfl, rfl, NurbsAxis.validateFits uValid, NurbsAxis.validateFits vValid,
        Decidable.not_not.mp sized⟩

structure Has (p : NuPatch α) (s : Segment α) : Prop where
  u : p.u.Has s.u
  v : p.v.Has s.v
  index : s.index < spanCount p.u.count p.u.order p.u.knots * spanCount p.v.count p.v.order p.v.knots

theorem segmentsHave {p : NuPatch α} (fits : p.Fits) {s : Segment α} (mem : s ∈ p.segments) :
    p.Has s := by
  simp only [segments, List.mem_flatMap, List.mem_map] at mem
  obtain ⟨v, vMem, u, uMem, rfl⟩ := mem
  have uHas := NurbsAxis.spansHave fits.u (List.mem_filter.mp uMem).1
  have vHas := NurbsAxis.spansHave fits.v vMem
  refine ⟨uHas, vHas, ?_⟩
  rw [NurbsAxis.fitsCount fits.u, NurbsAxis.fitsCount fits.v, NurbsAxis.spansLength]
  exact inRow vHas.ordinal uHas.ordinal

theorem segmentsRise {p : NuPatch α} (fits : p.Fits) : (p.segments.map Segment.index).Pairwise (· < ·) := by
  refine List.pairwise_map.mpr (List.pairwise_flatMap.mpr ⟨fun v _ => ?_, ?_⟩)
  · refine List.pairwise_map.mpr (((NurbsAxis.spansRise p.u).filter _).imp fun below => ?_)
    exact Nat.add_lt_add_left below _
  · refine (NurbsAxis.spansRise p.v).imp fun {v w} below x first y second => ?_
    obtain ⟨u, left, rfl⟩ := List.mem_map.mp first
    obtain ⟨t, -, rfl⟩ := List.mem_map.mp second
    have own := (NurbsAxis.spansHave fits.u (List.mem_filter.mp left).1).ordinal
    rw [← NurbsAxis.spansLength] at own
    calc v.ordinal * p.u.spans.length + u.ordinal
        < (v.ordinal + 1) * p.u.spans.length := by
          rw [Nat.succ_mul]
          exact Nat.add_lt_add_left own _
      _ ≤ w.ordinal * p.u.spans.length := Nat.mul_le_mul_right _ below
      _ ≤ w.ordinal * p.u.spans.length + t.ordinal := Nat.le_add_right ..

theorem blockInside {p : NuPatch α} {s : Segment α} (has : p.Has s) :
    ∀ i ∈ p.block s, i < p.u.count * p.v.count := by
  intro i mem
  simp only [block, List.mem_flatMap, List.mem_map, List.mem_range] at mem
  obtain ⟨b, up, a, across, rfl⟩ := mem
  obtain ⟨uLow, uHigh⟩ := has.u.begins
  obtain ⟨vLow, vHigh⟩ := has.v.begins
  have row : s.v.knot - p.v.degree + b < p.v.count := by
    simp only [NurbsAxis.degree] at *
    omega
  have place : s.u.knot - p.u.degree + a < p.u.count := by
    simp only [NurbsAxis.degree] at *
    omega
  have inside := inRow row place
  omega

theorem fitsReaches {p : NuPatch α} (fits : p.Fits) {s : Segment α} (has : p.Has s) :
    p.reaches s = true := by
  have points (i : Nat) (mem : i ∈ p.block s) : i < p.points.length := by
    rw [fits.points]
    exact blockInside has i mem
  have width : p.u.degree ≤ p.u.count := Nat.le_trans (Nat.sub_le _ _) fits.u.count
  simp [reaches, NurbsAxis.fitsReaches fits.u has.u.begins,
    NurbsAxis.fitsReaches fits.v has.v.begins, width]
  exact points

structure Sampled (p : NuPatch α) (tu tv : Nat) (g : SegmentGrid α) : Prop where
  grid : g.grid.Full tu tv
  influences : g.influences.length = (tu + 1) * (tv + 1)
  places : ∀ l ∈ g.influences, ∀ i ∈ l, i.place < p.u.order * p.v.order
  spanParams : g.spanParams.length = (tu + 1) * (tv + 1)

theorem evaluatePlaces (p : NuPatch α) (seg : Segment α) (block : List (Nat × Quad α)) (s t : α) :
    ∀ i ∈ (p.evaluate seg block s t).influences, i.place < block.length := by
  intro i mem
  obtain ⟨⟨⟨w, n, c⟩, place⟩, inside, rfl⟩ := List.mem_map.mp mem
  obtain ⟨-, bound, -⟩ := List.mem_zipIdx inside
  rw [List.length_zip] at bound
  show place < block.length
  omega

theorem sampleSampled {p : NuPatch α} {seg : Segment α} {tu tv : Nat} {g : SegmentGrid α}
    (done : p.sample seg tu tv = .ok g) : p.Sampled tu tv g := by
  obtain ⟨_, -, last⟩ := okBind done
  cases last
  refine ⟨⟨rfl, rfl, ?_, Grid.fillLength ..⟩, ?_, ?_, ?_⟩
  · simp [Grid.parametersLength]
  · simp [Grid.parametersLength]
  · intro l mem i share
    simp only [List.mem_map] at mem
    obtain ⟨_, ⟨_, -, rfl⟩, rfl⟩ := mem
    have place := evaluatePlaces p seg _ _ _ i share
    have few := List.length_filterMap_le
      (fun i => (p.points.toArray[i]?).map (i, ·)) (p.block seg)
    rw [blockLength] at few
    exact Nat.lt_of_lt_of_le place few
  · simp [Grid.parametersLength]

end NuPatch
end SceneStream.Geometry
