import Mathlib.Data.List.Chain
import Mathlib.Data.List.GetD
import SceneStream.Proofs.Geometry.Nurbs
import SceneStream.Proofs.Geometry.Scalar

/-! Which rational patches are made. The knots of both axes have to rise, and all of them but the first have to be
finite; the first one may lie infinitely far below, where a span that begins at it has no length to divide by. -/
namespace SceneStream.Geometry
open Knots
variable {α : Type} [Scalar α]

namespace NurbsAxis

/-- The knots rise, and each has a finite one after it. -/
structure Admissible (a : NurbsAxis α) : Prop extends a.Fits where
  rises : a.knots.IsChain (· ≤ ·)
  finite : ∀ k ∈ a.knots.tail, Scalar.isFinite k = true
  range : a.min < a.max

structure WellFormed (a : NurbsAxis α) : Prop extends a.Admissible where
  first : ∀ k ∈ a.knots.head?, Scalar.isFinite k = true

theorem decreaseNone {knots : List α} :
    decrease? knots = none ↔ knots.IsChain (· ≤ ·) ∧ ∀ k ∈ knots.tail, Scalar.isFinite k = true := by
  unfold decrease?
  rw [Option.map_eq_none_iff, List.findIdx?_eq_none_iff]
  induction knots with
  | nil => simp
  | cons x l ih =>
    cases l with
    | nil => simp
    | cons y l =>
      simp only [List.tail_cons, List.zip_cons_cons, List.forall_mem_cons, List.isChain_cons_cons] at ih ⊢
      rw [ih]
      simp only [Bool.not_eq_false', Bool.and_eq_true, decide_eq_true_eq]
      tauto

theorem validateAdmissible {side : Side} {a : NurbsAxis α} : a.validate side = .ok () ↔ a.Admissible := by
  constructor
  · intro valid
    have fits := validateFits valid
    unfold validate at valid
    dsimp only at valid
    rw [if_neg (by have := fits.order; have := fits.count; omega), if_neg (by simp [fits.knots])] at valid
    cases falls : decrease? a.knots with
    | some place =>
      rw [falls] at valid
      cases valid
    | none =>
      rw [falls] at valid
      obtain ⟨rises, finite⟩ := decreaseNone.mp falls
      by_cases range : a.min < a.max
      · exact ⟨fits, rises, finite, range⟩
      · simp only [range, if_false] at valid
        cases valid
  · intro admissible
    have order := admissible.order
    have count := admissible.count
    unfold validate
    dsimp only
    rw [if_neg (by omega), if_neg (by simp [admissible.knots]),
      decreaseNone.mpr ⟨admissible.rises, admissible.finite⟩]
    simp only [admissible.range, if_true]
    rfl

section Rising
variable {a : NurbsAxis α} (admissible : a.Admissible)
include admissible

theorem knotNext {i : Nat} (inside : i + 1 < a.knots.length) : knot a.knots i ≤ knot a.knots (i + 1) := by
  have next := List.isChain_iff_getElem.mp admissible.rises i inside
  rw [← List.getD_eq_getElem _ 0, ← List.getD_eq_getElem _ 0] at next
  exact next

variable [Comparable α]

theorem knotNumber {i : Nat} (inside : i < a.knots.length) : knot a.knots i ≤ knot a.knots i := by
  have order := admissible.order
  have count := admissible.count
  have knots := admissible.knots
  rcases i with _ | i
  · exact (Comparable.ends (knotNext admissible (i := 0) (by omega))).1
  · exact (Comparable.ends (knotNext admissible inside)).2

theorem knotsRise {i j : Nat} (order : i ≤ j) (inside : j < a.knots.length) : knot a.knots i ≤ knot a.knots j := by
  induction order with
  | refl => exact knotNumber admissible inside
  | step _ ih => exact Comparable.trans (ih (by omega)) (knotNext admissible inside)

end Rising

/-- A span is cut between two knots that lie apart, neither of them infinite but for the first of all. -/
structure Cuts (a : NurbsAxis α) (s : Span α) : Prop where
  apart : knot a.knots s.knot < knot a.knots (s.knot + 1)
  high : Scalar.isFinite (knot a.knots (s.knot + 1)) = true
  low : Scalar.isFinite (knot a.knots s.knot) = true ∨ s.knot = 0 ∧ a.order = 1

theorem knotFinite {a : NurbsAxis α} (admissible : a.Admissible) {i : Nat} (inside : i + 1 < a.knots.length) :
    Scalar.isFinite (knot a.knots (i + 1)) = true := by
  refine admissible.finite _ ?_
  unfold knot
  rw [List.getD_eq_getElem _ _ inside, List.mem_iff_getElem]
  exact ⟨i, by rw [List.length_tail]; omega, List.getElem_tail ..⟩

theorem spansCut {a : NurbsAxis α} (admissible : a.Admissible) {s : Span α} (mem : s ∈ a.spans) : a.Cuts s := by
  obtain ⟨low, high⟩ := (spansHave admissible.toFits mem).begins
  have order := admissible.order
  have knots := admissible.knots
  have apart : knot a.knots s.knot < knot a.knots (s.knot + 1) := by
    obtain ⟨⟨i, n⟩, place, rfl⟩ := List.mem_map.mp mem
    have start := (List.mem_zipIdx place).2.2 ▸ List.getElem_mem ..
    exact of_decide_eq_true (List.mem_filter.mp start).2
  refine ⟨apart, knotFinite admissible (by omega), ?_⟩
  rcases same : s.knot with _ | i
  · exact Or.inr ⟨rfl, by simp only [degree] at low; omega⟩
  · exact Or.inl (knotFinite admissible (by omega))

end NurbsAxis

def Quad.Weighs (q : Quad α) : Prop := (∀ c ∈ q.toList, Scalar.isFinite c = true) ∧ ¬Scalar.same q.w 0 = true

theorem NuPatch.makeIff {u v : NurbsAxis α} {points : List (Quad α)} {p : NuPatch α} :
    make u v points = .ok p ↔
      p = ⟨u, v, points⟩ ∧ u.Admissible ∧ v.Admissible ∧ points.length = u.count * v.count ∧ ∀ q ∈ points, q.Weighs := by
  have weighs : (points.findIdx? fun q => Scalar.same q.w 0 || !q.toList.all Scalar.isFinite) = none ↔
      ∀ q ∈ points, q.Weighs := by
    rw [List.findIdx?_eq_none_iff]
    refine forall₂_congr fun q _ => ?_
    rw [Bool.or_eq_false_iff, Bool.not_eq_false', List.all_eq_true, Quad.Weighs, and_comm, Bool.not_eq_true]
  unfold make
  constructor
  · intro made
    obtain ⟨_, first, made⟩ := Outcome.okBind made
    obtain ⟨_, second, made⟩ := Outcome.okBind made
    dsimp only at made
    split at made
    · cases made
    · rename_i sized
      split at made
      · cases made
      · rename_i none
        cases made
        exact ⟨rfl, NurbsAxis.validateAdmissible.mp first, NurbsAxis.validateAdmissible.mp second,
          Decidable.not_not.mp sized, weighs.mp none⟩
  · rintro ⟨rfl, first, second, sized, each⟩
    rw [NurbsAxis.validateAdmissible.mpr first, NurbsAxis.validateAdmissible.mpr second, weighs.mpr each]
    simp only [sized, ne_eq, not_true_eq_false, if_false]
    rfl

/-- The first knot lies infinitely far below. -/
def NurbsAxis.Endless (a : NurbsAxis Float) : Prop :=
  ∃ k ∈ a.knots.head?, k.isInf = true ∧ ∀ x : Float, x.isFinite = true → k < x

theorem NurbsAxis.firstKnot {a : NurbsAxis Float} (admissible : a.Admissible) : a.WellFormed ∨ a.Endless := by
  have order := admissible.order
  have count := admissible.count
  have knots := admissible.knots
  have rises := admissible.rises
  have finite := admissible.finite
  match split : a.knots with
  | [] | [_] =>
    simp only [split, List.length_nil, List.length_singleton] at knots
    omega
  | k :: next :: l =>
    simp only [split, List.isChain_cons_cons, List.tail_cons, List.forall_mem_cons] at rises finite
    rcases floatBelow rises.1 finite.1 with first | below
    · exact Or.inl ⟨admissible, fun _ head => Option.some.inj (split ▸ head) ▸ first⟩
    · exact Or.inr ⟨k, split ▸ rfl, below⟩

/-- A patch is made of what is admissible and of nothing else. All of its knots are finite but perhaps the first of an
axis, and then that is the lower end of a span only where the axis is of order one. -/
theorem patchMade (u v : NurbsAxis Float) (points : List (Quad Float)) :
    ((∃ p, NuPatch.make u v points = .ok p) ↔
      u.Admissible ∧ v.Admissible ∧ points.length = u.count * v.count ∧ ∀ q ∈ points, q.Weighs) ∧
      ∀ p, NuPatch.make u v points = .ok p → p = ⟨u, v, points⟩ ∧ (u.WellFormed ∨ u.Endless) ∧
        (v.WellFormed ∨ v.Endless) ∧ ∀ seg ∈ p.segments, u.Cuts seg.u ∧ v.Cuts seg.v := by
  refine ⟨⟨fun ⟨p, made⟩ => (NuPatch.makeIff.mp made).2, fun parts => ⟨_, NuPatch.makeIff.mpr ⟨rfl, parts⟩⟩⟩, ?_⟩
  intro p made
  obtain ⟨rfl, first, second, -⟩ := NuPatch.makeIff.mp made
  refine ⟨rfl, NurbsAxis.firstKnot first, NurbsAxis.firstKnot second, fun seg mem => ?_⟩
  simp only [NuPatch.segments, List.mem_flatMap, List.mem_map] at mem
  obtain ⟨t, below, s, beside, rfl⟩ := mem
  exact ⟨NurbsAxis.spansCut first (List.mem_filter.mp beside).1, NurbsAxis.spansCut second below⟩

def NuPatch.ray : NuPatch Float := ⟨⟨1, 1, [-1 / 0, 1], 0, 1⟩, ⟨1, 1, [0, 1], 0, 1⟩, [⟨0, 0, 0, 1⟩]⟩

/-- A patch that begins infinitely far below is made, and the places of its samples in their span are no numbers. -/
theorem rayMade :
    NuPatch.make NuPatch.ray.u NuPatch.ray.v NuPatch.ray.points = .ok .ray ∧ ¬NuPatch.ray.u.WellFormed ∧
      (NuPatch.ray.segments.map fun seg => (NuPatch.ray.sample seg 1 1).toOption.map fun g =>
        g.spanParams.map (·.1.isNaN)) = [some [true, true, true, true]] := by
  refine ⟨by decide +kernel, fun well => ?_, by decide +kernel⟩
  exact absurd (well.first _ rfl) (by decide +kernel)

end SceneStream.Geometry
