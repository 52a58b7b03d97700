import Mathlib.Data.List.Nodup
import Mathlib.Order.Basic
import SceneStream.Proofs.Geometry.Nurbs.Accepted

/-! The segments of a rational patch tile what its range leaves of the knots, and are numbered by their knots alone. -/
namespace SceneStream.Geometry
open Knots
variable {α κ : Type} [LinearOrder κ]

/-- Places lie among the numbers and between them: `f` says where the numbers are. -/
structure Span.Holds (f : α → κ) (x : Span α) (s : κ) : Prop where
  low : f x.low ≤ s
  high : s ≤ f x.high

structure Span.Inside (f : α → κ) (x : Span α) (s : κ) : Prop where
  low : f x.low < s
  high : s < f x.high

namespace NurbsAxis

theorem fitsDegree {a : NurbsAxis α} (fits : a.Fits) : a.degree < a.count := by
  have order := fits.order
  have count := fits.count
  simp only [degree]
  omega

variable [Scalar α]

def low (a : NurbsAxis α) : α := Scalar.greatest a.min (knot a.knots a.degree)
def high (a : NurbsAxis α) : α := Scalar.least a.max (knot a.knots a.count)

def span (a : NurbsAxis α) (i ordinal : Nat) : Span α :=
  ⟨i, ordinal, Scalar.greatest (knot a.knots i) a.low, Scalar.least (knot a.knots (i + 1)) a.high⟩

def ordinal (a : NurbsAxis α) (i : Nat) : Nat := (starts a.count a.order a.knots).idxOf i

theorem startsRising (a : NurbsAxis α) : (starts a.count a.order a.knots).Pairwise (· < ·) :=
  List.Pairwise.filter _ List.pairwise_lt_range'

theorem spanMem {a : NurbsAxis α} {x : Span α} :
    x ∈ a.spans ↔ x.knot ∈ starts a.count a.order a.knots ∧ x = a.span x.knot (a.ordinal x.knot) := by
  constructor
  · intro mem
    obtain ⟨⟨i, n⟩, place, made⟩ := List.mem_map.mp mem
    have made : a.span i n = x := made
    subst made
    have entry : (starts a.count a.order a.knots)[n]? = some i := List.mem_zipIdx_iff_getElem?.mp place
    obtain ⟨inside, here⟩ := List.getElem?_eq_some_iff.mp entry
    have once : (starts a.count a.order a.knots).Nodup := (startsRising a).imp Nat.ne_of_lt
    refine ⟨List.mem_of_getElem? entry, congrArg (a.span i) ?_⟩
    show n = (starts a.count a.order a.knots).idxOf i
    rw [← here, once.idxOf_getElem]
  · rintro ⟨start, made⟩
    refine List.mem_map.mpr ⟨(x.knot, a.ordinal x.knot), List.mem_zipIdx_iff_getElem?.mpr ?_, made.symm⟩
    show (starts a.count a.order a.knots)[a.ordinal x.knot]? = some x.knot
    rw [ordinal, List.getElem?_eq_getElem (List.idxOf_lt_length_of_mem start), List.getElem_idxOf]

theorem startMem {a : NurbsAxis α} (order : 0 < a.order) {i : Nat} :
    i ∈ starts a.count a.order a.knots ↔ (a.degree ≤ i ∧ i < a.count) ∧ knot a.knots i < knot a.knots (i + 1) := by
  rw [starts, List.mem_filter, List.mem_range'_1, decide_eq_true_eq, degree]
  refine and_congr_left' ?_
  omega

theorem spansRising (a : NurbsAxis α) : a.spans.Pairwise fun x y => x.knot < y.knot := by
  have all : a.spans.map Span.knot = starts a.count a.order a.knots := by
    rw [spans, List.map_map]
    exact List.zipIdx_map_fst ..
  exact List.pairwise_map.mp (all ▸ startsRising a)

variable [Comparable α] {a : NurbsAxis α} (admissible : a.Admissible)
include admissible

theorem rangeNumbers : a.min ≤ a.min ∧ a.max ≤ a.max := Comparable.ends (Comparable.le admissible.range)

theorem outerNumbers : knot a.knots a.degree ≤ knot a.knots a.degree ∧ knot a.knots a.count ≤ knot a.knots a.count := by
  have order := admissible.order
  have knots := admissible.knots
  have short := fitsDegree admissible.toFits
  exact ⟨knotNumber admissible (by omega), knotNumber admissible (by omega)⟩

theorem lowNumber : a.low ≤ a.low :=
  Comparable.greatestEither (P := fun x => x ≤ x) (rangeNumbers admissible).1 (outerNumbers admissible).1

theorem highNumber : a.high ≤ a.high :=
  Comparable.leastEither (P := fun x => x ≤ x) (rangeNumbers admissible).2 (outerNumbers admissible).2

theorem lowFirst : knot a.knots a.degree ≤ a.low :=
  (Comparable.greatestBounds (rangeNumbers admissible).1 (outerNumbers admissible).1).2

theorem highLast : a.high ≤ knot a.knots a.count :=
  (Comparable.leastBounds (rangeNumbers admissible).2 (outerNumbers admissible).2).2

/-- A span is what the range leaves of what is between its knots. -/
structure Trims (a : NurbsAxis α) (x : Span α) : Prop where
  knots : knot a.knots x.knot ≤ x.low ∧ x.high ≤ knot a.knots (x.knot + 1)
  range : a.low ≤ x.low ∧ x.high ≤ a.high

theorem spanTrims {x : Span α} (mem : x ∈ a.spans) : a.Trims x := by
  obtain ⟨start, made⟩ := spanMem.mp mem
  have place := startsBegin admissible.toFits start
  have order := admissible.order
  have knots := admissible.knots
  have high := place.high
  have low := Comparable.greatestBounds (knotNumber admissible (i := x.knot) (by omega)) (lowNumber admissible)
  have high := Comparable.leastBounds (knotNumber admissible (i := x.knot + 1) (by omega)) (highNumber admissible)
  rw [made]
  exact ⟨⟨low.1, high.1⟩, low.2, high.2⟩

theorem spansApart : a.spans.Pairwise fun x y => x.high ≤ y.low := by
  refine (spansRising a).imp_of_mem fun {x y} first second below => ?_
  have last := (startsBegin admissible.toFits (spanMem.mp second).1).high
  have knots := admissible.knots
  have between := knotsRise admissible (i := x.knot + 1) (j := y.knot) below (by omega)
  exact Comparable.trans (spanTrims admissible first).knots.2
    (Comparable.trans between (spanTrims admissible second).knots.1)

variable {f : α → κ} (mono : ∀ x y, x ≤ y → f x ≤ f y)
include mono

theorem insideOnce {s : κ} : a.spans.Pairwise fun x y => ¬(x.Inside f s ∧ y.Inside f s) := by
  refine (spansApart admissible).imp fun {x y} order both => ?_
  exact lt_asymm both.1.high ((mono _ _ order).trans_lt both.2.low)

theorem heldBefore {s : κ} (extent : a.low < a.high) (low : f a.low ≤ s) {n : Nat} (begun : a.degree ≤ n)
    (inside : n ≤ a.count) (above : a.low < knot a.knots n) (below : s ≤ f (knot a.knots n)) (high : s ≤ f a.high) :
    ∃ x ∈ a.spans, x.low < x.high ∧ x.Holds f s := by
  -- Up to each knot, all that the range has is held by the spans before it.
  have order := admissible.order
  have knots := admissible.knots
  have less {x y : α} (first : x ≤ x) (second : y ≤ y) (under : f x < f y) : x < y :=
    (Comparable.lessOr first second).resolve_right fun above => under.not_ge (mono y x above)
  induction n, begun using Nat.le_induction with
  | base => exact absurd (lowFirst admissible) (Comparable.notLe above)
  | succ n begun ih =>
    have here := knotNumber admissible (i := n) (by omega)
    have next := knotNumber admissible (i := n + 1) (by omega)
    by_cases earlier : a.low < knot a.knots n ∧ s ≤ f (knot a.knots n)
    · exact ih (by omega) earlier.1 earlier.2
    · -- the span that ends here begins below the place, and so does what is left of it
      have begins : f (knot a.knots n) ≤ s ∧ knot a.knots n < knot a.knots (n + 1) ∧ knot a.knots n < a.high := by
        rcases Comparable.lessOr (lowNumber admissible) here with up | down
        · have past := not_le.mp fun le => earlier ⟨up, le⟩
          exact ⟨past.le, less here next (past.trans_le below), less here (highNumber admissible) (past.trans_le high)⟩
        · exact ⟨(mono _ _ down).trans low, Comparable.leLess down above, Comparable.leLess down extent⟩
      refine ⟨a.span n (a.ordinal n), spanMem.mpr ⟨?_, rfl⟩, ?_, ?_, ?_⟩
      · exact (startMem order (i := n)).mpr ⟨⟨begun, by omega⟩, begins.2.1⟩
      · exact Comparable.greatestEither (P := fun x => x < _)
          (Comparable.leastEither (P := fun y => _ < y) begins.2.1 begins.2.2)
          (Comparable.leastEither (P := fun y => _ < y) above extent)
      · exact Comparable.greatestEither (P := fun x => f x ≤ s) begins.1 low
      · exact Comparable.leastEither (P := fun y => s ≤ f y) below high

theorem spansHold {s : κ} :
    (∃ x ∈ a.spans, x.low < x.high ∧ x.Holds f s) ↔ a.low < a.high ∧ f a.low ≤ s ∧ s ≤ f a.high := by
  constructor
  · rintro ⟨x, mem, extent, low, high⟩
    obtain ⟨below, above⟩ := (spanTrims admissible mem).range
    exact ⟨Comparable.lessLe (Comparable.leLess below extent) above, (mono _ _ below).trans low,
      high.trans (mono _ _ above)⟩
  · rintro ⟨extent, low, high⟩
    exact heldBefore admissible mono extent low (fitsDegree admissible.toFits).le le_rfl
      (Comparable.lessLe extent (highLast admissible)) (high.trans (mono _ _ (highLast admissible))) high

end NurbsAxis
variable [Scalar α]

/-- The segments tile what the ranges leave of the knots, each within its own spans, and a segment has the number that
its knots have among all pairs of spans, whatever the ranges are. -/
structure NuPatch.Tiled (p : NuPatch α) : Prop where
  covers : ∀ (κ : Type) [LinearOrder κ] (f : α → κ), (∀ x y, x ≤ y → f x ≤ f y) → ∀ s t,
    (∃ seg ∈ p.segments, seg.u.Holds f s ∧ seg.v.Holds f t) ↔
      (p.u.low < p.u.high ∧ p.v.low < p.v.high) ∧ (f p.u.low ≤ s ∧ s ≤ f p.u.high) ∧ f p.v.low ≤ t ∧ t ≤ f p.v.high
  apart : ∀ (κ : Type) [LinearOrder κ] (f : α → κ), (∀ x y, x ≤ y → f x ≤ f y) → ∀ s t,
    p.segments.Pairwise fun x y =>
      ¬((x.u.Inside f s ∧ x.v.Inside f t) ∧ y.u.Inside f s ∧ y.v.Inside f t)
  trims : ∀ seg ∈ p.segments, p.u.Trims seg.u ∧ p.v.Trims seg.v
  numbers : ∀ seg ∈ p.segments, seg.index =
    p.v.ordinal seg.v.knot * spanCount p.u.count p.u.order p.u.knots + p.u.ordinal seg.u.knot
  rises : (p.segments.map Segment.index).Pairwise (· < ·)
  bounded : ∀ seg ∈ p.segments, seg.index <
    (ValueCounts.nuPatch p.u.count p.u.order p.u.knots p.v.count p.v.order p.v.knots).uniform

theorem segmentMem {p : NuPatch α} {seg : Segment α} :
    seg ∈ p.segments ↔ (seg.u ∈ p.u.spans ∧ seg.u.low < seg.u.high) ∧ (seg.v ∈ p.v.spans ∧ seg.v.low < seg.v.high) ∧
      seg.index = seg.v.ordinal * p.u.spans.length + seg.u.ordinal := by
  obtain ⟨u, v, index⟩ := seg
  simp only [NuPatch.segments, List.mem_flatMap, List.mem_map, List.mem_filter, Bool.and_eq_true, decide_eq_true_eq,
    Segment.mk.injEq]
  grind

/-- A patch that is made falls into segments that tile it. -/
theorem segmentsTile {u v : NurbsAxis Float} {points : List (Quad Float)} {p : NuPatch Float}
    (made : NuPatch.make u v points = .ok p) : p.Tiled := by
  obtain ⟨rfl, uAdmissible, vAdmissible, -⟩ := NuPatch.makeIff.mp made
  obtain ⟨-, -, fits⟩ := NuPatch.makeFits made
  refine ⟨fun κ _ f mono s t => ?_, fun κ _ f mono s t => ?_, fun seg mem => ?_, fun seg mem => ?_,
    NuPatch.segmentsRise fits, fun seg mem => (NuPatch.segmentsHave fits mem).index⟩
  · have across := NurbsAxis.spansHold uAdmissible mono (s := s)
    have up := NurbsAxis.spansHold vAdmissible mono (s := t)
    simp only [segmentMem]
    constructor
    · rintro ⟨seg, ⟨⟨first, long⟩, ⟨second, tall⟩, -⟩, left, right⟩
      obtain ⟨wide, between⟩ := across.mp ⟨_, first, long, left⟩
      obtain ⟨high, within⟩ := up.mp ⟨_, second, tall, right⟩
      exact ⟨⟨wide, high⟩, between, within⟩
    · rintro ⟨⟨wide, high⟩, between, within⟩
      obtain ⟨x, first, long, left⟩ := across.mpr ⟨wide, between⟩
      obtain ⟨y, second, tall, right⟩ := up.mpr ⟨high, within⟩
      refine ⟨⟨x, y, y.ordinal * u.spans.length + x.ordinal⟩, ⟨⟨first, long⟩, ⟨second, tall⟩, rfl⟩, left, right⟩
  · refine List.pairwise_flatMap.mpr ⟨fun y _ => ?_, ?_⟩
    · refine List.pairwise_map.mpr (((NurbsAxis.insideOnce uAdmissible mono (s := s)).filter _).imp fun apart both => ?_)
      exact apart ⟨both.1.1, both.2.1⟩
    · refine (NurbsAxis.insideOnce vAdmissible mono (s := t)).imp fun apart x first y second both => ?_
      obtain ⟨_, -, rfl⟩ := List.mem_map.mp first
      obtain ⟨_, -, rfl⟩ := List.mem_map.mp second
      exact apart ⟨both.1.2, both.2.2⟩
  · obtain ⟨⟨first, -⟩, ⟨second, -⟩, -⟩ := segmentMem.mp mem
    exact ⟨NurbsAxis.spanTrims uAdmissible first, NurbsAxis.spanTrims vAdmissible second⟩
  · obtain ⟨⟨first, -⟩, ⟨second, -⟩, index⟩ := segmentMem.mp mem
    rw [index, NurbsAxis.fitsCount fits.u, NurbsAxis.spansLength, (NurbsAxis.spanMem.mp first).2,
      (NurbsAxis.spanMem.mp second).2]
    rfl

/-- Four spans along u, one of them without a length and two of them trimmed, and one along v. -/
def NuPatch.trimmed : NuPatch Float :=
  ⟨⟨5, 2, [0, 0, 1, 1, 2, 3, 3], 0.5, 2.5⟩, ⟨2, 2, [0, 0, 1, 1], 0, 1⟩, List.replicate 10 ⟨0, 0, 0, 1⟩⟩

theorem trimmedTiles : NuPatch.make NuPatch.trimmed.u NuPatch.trimmed.v NuPatch.trimmed.points = .ok .trimmed ∧
    NuPatch.trimmed.Tiled := by
  have made : NuPatch.make NuPatch.trimmed.u NuPatch.trimmed.v NuPatch.trimmed.points = .ok .trimmed := by
    decide +kernel
  exact ⟨made, segmentsTile made⟩

end SceneStream.Geometry
