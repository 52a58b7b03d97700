import Mathlib.Data.List.Destutter
import SceneStream.Proofs.Geometry.Bridge
import SceneStream.Proofs.Geometry.Links.History

/-! What is left of a ring after each vertex that is the same as the one before it has been dropped. Where
closing the ring costs it its start, one pair of neighbours is never looked at. -/
namespace SceneStream.Geometry

theorem stepsChain {β : Type} {R : β → β → Prop} {l : List β} (chain : l.IsChain R) :
    ∀ e ∈ steps l, R e.1 e.2 := by
  induction l with
  | nil => exact nofun
  | cons a l ih =>
    cases l with
    | nil => exact nofun
    | cons b l =>
      obtain ⟨first, later⟩ := List.isChain_cons_cons.mp chain
      rw [stepsCons, List.forall_mem_cons]
      exact ⟨first, ih later⟩

theorem stepsMap {β γ : Type} (f : β → γ) (l : List β) : steps (l.map f) = (steps l).map (Prod.map f f) := by
  rw [steps, steps, ← List.map_tail, List.zip_map]

namespace Ring
variable {α : Type} [Scalar α]

theorem collapseDestutter (eps : α) (a : Node α) (l : List (Node α)) :
    collapse eps a l = l.destutter' (fun p q => ¬ p.same eps q) a := by
  induction l generalizing a with
  | nil => rfl
  | cons b l ih =>
    rw [collapse, List.destutter'_cons, ih, ih]
    split <;> simp_all

theorem closeApart (eps : α) (a : Node α) (l : List (Node α)) {d : Node α} {m : Ring α}
    (closed : d :: m = close eps (collapse eps a l)) :
    (∀ e ∈ steps (m ++ [d]), ¬ e.1.same eps e.2) ∧
      ∀ w k, m = w :: k → d.same eps w → d.same eps a ∧ ¬ a.same eps w := by
  have chain : (collapse eps a l).IsChain fun p q => ¬ p.same eps q :=
    collapseDestutter eps a l ▸ List.isChain_destutter' _ l a
  obtain ⟨r, kept⟩ := collapseBegun eps a l
  rw [kept] at closed chain
  rcases List.eq_nil_or_concat r with rfl | ⟨k, z, rfl⟩
  · obtain ⟨rfl, rfl⟩ := List.cons.inj closed
    exact ⟨nofun, nofun⟩
  · rw [List.concat_eq_append] at closed chain
    have inner := stepsChain chain.tail
    by_cases same : z.same eps a
    · have replaced : d :: m = z :: k := by simpa [close, same] using closed
      obtain ⟨rfl, rfl⟩ := List.cons.inj replaced
      refine ⟨inner, ?_⟩
      rintro w k rfl -
      exact ⟨same, (List.isChain_cons_cons.mp chain).1⟩
    · have whole : d :: m = a :: (k ++ [z]) := by simpa [close, same] using closed
      obtain ⟨rfl, rfl⟩ := List.cons.inj whole
      constructor
      · rw [List.append_assoc, List.singleton_append, stepsAppend, List.forall_mem_append]
        exact ⟨inner, List.forall_mem_singleton.mpr same⟩
      · intro w n first held
        rw [first] at chain
        exact absurd held (List.isChain_cons_cons.mp chain).1

end Ring

namespace Links
variable {α : Type} [Scalar α] {x : Run α} {b : Node α × Nat} {l : Chain α} {rest : List (Chain α)}

/-- What is left is one closed chain of members of the ring, in their order. If one of them is still the same as
the next, it is the start and took the place of the old start: it is the same as that, and that was not the same as
the next. Where two that are the same as a third are always the same, no such pair is left. -/
theorem duplicatesDropped (eps : α) (held : Held x.links ((b :: l) :: rest)) : ∃ y d m,
    Links.distinct? eps x b.2 = some (y, if 3 ≤ (d :: m).length then some d.2 else none) ∧
      Held y.links ((d :: m) :: rest) ∧ (∃ c, c ~r d :: m ∧ c.Sublist (b :: l)) ∧
      (∀ e ∈ edges (d :: m), m ≠ [] → e.1.1.same eps e.2.1 →
        e.1 = d ∧ d.1.same eps b.1 ∧ ¬ b.1.same eps e.2.1) ∧
      ((∀ p q r : Node α, p.same eps q → p.same eps r → q.same eps r) →
        ∀ e ∈ edges (d :: m), m ≠ [] → ¬ e.1.1.same eps e.2.1) := by
  obtain ⟨y, d, m, done, closed, part, later⟩ := distinctHeld heldTracks eps held
  obtain ⟨apart, first⟩ := Ring.closeApart eps b.1 (ring l) closed
  have left (e) (edge : e ∈ edges (d :: m)) (more : m ≠ []) (same : e.1.1.same eps e.2.1) :
      e.1 = d ∧ d.1.same eps b.1 ∧ ¬ b.1.same eps e.2.1 := by
    obtain ⟨w, k, rfl⟩ := List.exists_cons_of_ne_nil more
    rw [edgesCons, List.cons_append, List.cons_append, stepsCons] at edge
    rcases List.mem_cons.mp edge with rfl | inner
    · exact ⟨rfl, first w.1 (ring k) rfl same⟩
    · have nodes : steps (ring (w :: k) ++ [d.1]) = (steps (w :: k ++ [d])).map (Prod.map (·.1) (·.1)) := by
        rw [← stepsMap, List.map_append]
        rfl
      exact absurd same (apart _ (nodes ▸ List.mem_map_of_mem inner))
  refine ⟨y, d, m, done, later, part, left, fun alike e edge more same => ?_⟩
  obtain ⟨rfl, toStart, away⟩ := left e edge more same
  exact away (alike _ _ _ toStart same)

/-- A square that is begun between two copies of a corner. -/
def doubled : Ring ℚ := [⟨0, 0, 0⟩, ⟨1, 4, 0⟩, ⟨2, 4, 0⟩, ⟨3, 4, 4⟩, ⟨4, 0, 4⟩, ⟨5, 0, 0⟩]

theorem doubledDropped : Held (layOut [] [doubled]) [doubled.zipIdx] ∧ ∃ y d m,
    Links.distinct? (0 : ℚ) ⟨layOut [] [doubled], []⟩ 0 = some (y, if 3 ≤ (d :: m).length then some d.2 else none) ∧
      Held y.links [d :: m] ∧ (∃ c, c ~r d :: m ∧ c.Sublist doubled.zipIdx) ∧
      ∀ e ∈ edges (d :: m), m ≠ [] → ¬ e.1.1.same 0 e.2.1 := by
  have held := historyHeld (laidOut [doubled])
  obtain ⟨y, d, m, done, later, part, -, apart⟩ := duplicatesDropped (x := ⟨layOut [] [doubled], []⟩) 0 held
  refine ⟨held, y, d, m, done, later, part, apart fun p q r first second => ?_⟩
  exact placeSame.mpr ((placeSame.mp first).symm.trans (placeSame.mp second))

/-- Of any three or more of these, in their order, two neighbours are within ten of each other. -/
def wedge : Ring ℚ := [⟨0, 0, 0⟩, ⟨1, 15, 0⟩, ⟨2, -9, -10⟩, ⟨3, 6, 10⟩]

/-- The last one takes the place of the first, and stays beside the second, which it is the same as. -/
theorem wedgeKeepsPair : (∀ c ∈ wedge.sublists, 3 ≤ c.length → ∃ e ∈ edges c, e.1.same 10 e.2) ∧
    (∃ y a b, Links.distinct? (10 : ℚ) ⟨layOut [] [wedge], []⟩ 0 = some (y, some 3) ∧
      y.links.nodeAt 3 = some a ∧ y.links.nextAt 3 = some 1 ∧ y.links.nodeAt 1 = some b ∧ a.same 10 b) ∧
    triangulate (10 : ℚ) [⟨0, 0, 0⟩, ⟨15, 0, 0⟩, ⟨-9, -10, 0⟩, ⟨6, 10, 0⟩] [4] = .ok [⟨2, 3, 1⟩] := by
  refine ⟨by decide +kernel, ?_, by decide +kernel⟩
  have read : (Links.distinct? (10 : ℚ) ⟨layOut [] [wedge], []⟩ 0).map (fun (y, kept) =>
      (kept, y.links.nodeAt 3, y.links.nextAt 3, y.links.nodeAt 1)) =
      some (some 3, some ⟨3, 6, 10⟩, some 1, some ⟨1, 15, 0⟩) := by
    decide +kernel
  obtain ⟨⟨y, kept⟩, done, told⟩ := Option.map_eq_some_iff.mp read
  simp only [Prod.mk.injEq] at told
  obtain ⟨rfl, node, next, successor⟩ := told
  exact ⟨y, _, _, done, node, next, successor, by decide +kernel⟩

end Links
end SceneStream.Geometry
