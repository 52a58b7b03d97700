import SceneStream.Proofs.Geometry.Attach
import SceneStream.Proofs.Geometry.Plane.Rounds

/-! Rings with holes in exact arithmetic: where all bridges are fair, the holes are joined and the ring that results is
clipped to the end. -/
namespace SceneStream.Geometry

namespace Plane
variable {α : Type} [Field α] [LinearOrder α]

/-- A simple ring and simple holes in it, that have no point in common and of which none is in another one. -/
structure Holed (r : List (α × α)) (ks : List (List (α × α))) : Prop where
  outer : Simple r
  holes : ∀ k ∈ ks, Simple k
  aloof : ∀ k ∈ ks, Aloof r k
  inside : ∀ k ∈ ks, ∀ p ∈ k, rounds r p ≠ 0
  apart : ks.Pairwise fun j k => Aloof j k ∧ (∀ p ∈ k, rounds j p = 0) ∧ ∀ p ∈ j, rounds k p = 0

variable [IsStrictOrderedRing α] {s : α} {r k : List (α × α)}

theorem aloofTilt (s : α) (aloof : Aloof r k) : Aloof (r.map (tilt s)) (k.map (tilt s)) := by
  intro e edge f edge' w on onward
  obtain ⟨e, first, rfl⟩ := mappedEdge edge
  obtain ⟨f, second, rfl⟩ := mappedEdge edge'
  exact aloof e first f second _ (segmentTilt s on) (segmentTilt s onward)

def Beyond (j k : List (α × α)) : Prop := Aloof j k ∧ (∀ p ∈ k, turning j p = 0) ∧ ∀ p ∈ j, turning k p = 0

theorem offTilt {w : α × α} (off : Off (r.map (tilt s)) (tilt s w)) : Off r w := fun e edge on =>
  off _ (edgeMapped (tilt s) edge) (tiltOn.mpr on)

theorem partsNone {β : Type} {l : List β} {f : β → ℤ} (low : ∀ x ∈ l, f x ≤ 0) (sum : 0 ≤ (l.map f).sum) :
    ∀ x ∈ l, f x = 0 := by
  -- Of parts that are at most nothing and together not less, each is nothing.
  intro x mem
  have more := List.single_le_sum (l := l.map fun x => -f x)
    (List.forall_mem_map.mpr fun x mem => neg_nonneg.mpr (low x mem)) _ (List.mem_map_of_mem mem)
  have back : (l.map fun x => -f x).sum = -(l.map f).sum := by
    rw [List.sum_neg, List.map_map]
    rfl
  have := low x mem
  omega

end Plane

variable {α : Type} [Field α] [LinearOrder α] [Roots α]

def joinOrder (holes : List (Nat × Ring α)) : List (Nat × Ring α) :=
  (holes.filterMap fun k => (Triangulation.hole? 0 k.2).map (k.1, ·)).mergeSort Triangulation.before

variable [IsStrictOrderedRing α] {s : α}

section Order
variable {holes : List (Nat × Ring α)} (simple : ∀ k ∈ holes, Plane.Simple (k.2.map Node.place))
include simple

theorem joinOrderPerm : (joinOrder holes).Perm (holes.map fun k => (k.1, holeRing k.2)) := by
  refine (List.mergeSort_perm ..).trans (.of_eq ?_)
  rw [← List.filterMap_eq_map]
  refine List.filterMap_congr fun k mem => ?_
  rw [(holeKept (simple k mem)).1]
  rfl

theorem joinOrderFrom {k : Nat × Ring α} (mem : k ∈ joinOrder holes) : ∃ j ∈ holes, (j.1, holeRing j.2) = k :=
  List.mem_map.mp ((joinOrderPerm simple).mem_iff.mp mem)

theorem joinOrderOrdered : Ordered (joinOrder holes) where
  order := orderedLeft _
  begun := by
    intro k mem
    obtain ⟨j, here, rfl⟩ := joinOrderFrom simple mem
    exact holeBegun fun none => by simpa [none] using (simple j here).long

end Order

omit [IsStrictOrderedRing α] [LinearOrder α] [Roots α] in
theorem spotsTilt (s : α) (r : Ring α) : r.map (Node.spot s) = (r.map Node.place).map (Plane.tilt s) := by
  rw [List.map_map]
  rfl

section Hole
variable {r j k : Ring α} {l : List (α × α)}

theorem holeAloof (s : α) (aloof : Plane.Aloof (r.map Node.place) (k.map Node.place)) :
    Plane.Aloof (r.map (Node.spot s)) ((holeRing k).map (Node.spot s)) := by
  refine Plane.sameAloof (sameMap _ (holeSame k)) ?_
  rw [spotsTilt, spotsTilt]
  exact Plane.aloofTilt s aloof

omit [IsStrictOrderedRing α] in
theorem holePlaces (inside : k.map Node.place ⊆ l) : (holeRing k).map Node.place ⊆ l := by
  intro p mem
  obtain ⟨x, member, rfl⟩ := List.mem_map.mp mem
  exact inside (List.mem_map_of_mem ((sameMember (holeSame k)).mp member))

theorem holeTurning {p : α × α} (slight : Plane.Slight s l) (inside : r.map Node.place ⊆ l) (here : p ∈ l) :
    Plane.turning ((holeRing r).map (Node.spot s)) (Plane.tilt s p) = Plane.rounds (r.map Node.place) p ∨
      Plane.turning ((holeRing r).map (Node.spot s)) (Plane.tilt s p) = -Plane.rounds (r.map Node.place) p := by
  rw [← Plane.roundsTilt slight inside here, ← spotsTilt]
  exact Plane.sameTurning (sameMap _ (holeSame r)) _

theorem holeOutside (slight : Plane.Slight s l) (inside : j.map Node.place ⊆ l) (inside' : k.map Node.place ⊆ l)
    (outside : ∀ p ∈ k.map Node.place, Plane.rounds (j.map Node.place) p = 0) :
    ∀ p ∈ (holeRing k).map (Node.spot s), Plane.turning ((holeRing j).map (Node.spot s)) p = 0 := by
  refine List.forall_mem_map.mpr fun p member => ?_
  have old := List.mem_map_of_mem (f := Node.place) ((sameMember (holeSame k)).mp member)
  rcases holeTurning slight inside (inside' old) with same | back
  · exact same.trans (outside _ old)
  · exact back.trans (neg_eq_zero.mpr (outside _ old))

end Hole

section Rings
variable {ring : Ring α} {holes : List (Nat × Ring α)} {l : List (α × α)}
  (holed : Plane.Holed (ring.map Node.place) (holes.map fun k => k.2.map Node.place))
include holed

theorem ringsLevel (slight : Plane.Slight s l) (inside : ring.map Node.place ⊆ l)
    (inside' : ∀ k ∈ holes, k.2.map Node.place ⊆ l) :
    Plane.Level (ring.map (Node.spot s) ++ ((joinOrder holes).map fun k => k.2.map (Node.spot s)).flatten) := by
  refine Plane.levelSubset (Plane.slightLevel slight) (List.append_subset.mpr ⟨?_, fun x mem => ?_⟩)
  · rw [spotsTilt]
    exact List.map_subset _ inside
  · obtain ⟨_, place, here⟩ := List.mem_flatten.mp mem
    obtain ⟨k, known, rfl⟩ := List.mem_map.mp place
    obtain ⟨j, given, rfl⟩ := joinOrderFrom (fun k mem => holed.holes _ (List.mem_map_of_mem mem)) known
    rw [spotsTilt] at here
    exact List.map_subset _ (holePlaces (inside' j given)) here

theorem holesBeyond (slight : Plane.Slight s l) (inside : ∀ k ∈ holes, k.2.map Node.place ⊆ l) :
    (joinOrder holes).Pairwise fun j k => Plane.Beyond (j.2.map (Node.spot s)) (k.2.map (Node.spot s)) := by
  have perm := joinOrderPerm fun k mem => holed.holes _ (List.mem_map_of_mem mem)
  -- The holes are given in another order, so that it matters that neither of two winds about the other.
  refine (perm.pairwise_iff fun apart => ⟨Plane.aloofTurned apart.1, apart.2.2, apart.2.1⟩).mpr ?_
  refine List.pairwise_map.mpr ((List.pairwise_map.mp holed.apart).imp_of_mem fun {j k} first second apart => ?_)
  refine ⟨?_, holeOutside slight (inside j first) (inside k second) apart.2.1,
    holeOutside slight (inside k second) (inside j first) apart.2.2⟩
  exact Plane.aloofTurned (Plane.sameAloof (sameMap _ (holeSame j.2)) (Plane.aloofTurned (holeAloof s apart.1)))

variable (left : 0 < Plane.sweptArea (ring.map Node.place)) (slight : Plane.Slight s l)
  (inside : ring.map Node.place ⊆ l) (inside' : ∀ k ∈ holes, k.2.map Node.place ⊆ l)
include left slight inside inside'

theorem holedAround :
    Plane.Around (ring.map (Node.spot s)) ((joinOrder holes).map fun k => k.2.map (Node.spot s)) := by
  have simple (k) (mem : k ∈ holes) := holed.holes _ (List.mem_map_of_mem mem)
  have level := ringsLevel holed slight inside inside'
  have filled : Plane.Filled (ring.map (Node.spot s)) := by
    rw [spotsTilt] at *
    exact Plane.simpleFilledAt holed.outer left (Plane.levelSubset level (List.subset_append_left ..))
  have long : 3 ≤ (ring.map (Node.spot s)).length := by simpa using holed.outer.long
  have aloof (j) (given : j ∈ holes) : Plane.Aloof (ring.map (Node.spot s)) ((holeRing j.2).map (Node.spot s)) :=
    holeAloof s (holed.aloof _ (List.mem_map_of_mem given))
  refine ⟨filled, long, level, List.forall_mem_map.mpr fun k known => ?_, List.forall_mem_map.mpr fun k known => ?_,
    List.forall_mem_map.mpr fun k known => ?_, ?_⟩
  · obtain ⟨j, given, rfl⟩ := joinOrderFrom simple known
    refine ⟨Plane.sameSimple (sameMap _ (holeSame j.2)) ?_, ?_⟩
    · rw [spotsTilt]
      exact Plane.simpleTilt s (simple j given)
    · rw [spotsTilt, Plane.sweptTilt]
      exact (holeKept (simple j given)).2
  · obtain ⟨j, given, rfl⟩ := joinOrderFrom simple known
    exact aloof j given
  · obtain ⟨j, given, rfl⟩ := joinOrderFrom simple known
    refine List.forall_mem_map.mpr fun p member => ?_
    have old := (sameMember (holeSame j.2)).mp member
    have place := inside' j given (List.mem_map_of_mem old)
    have winds := holed.inside _ (List.mem_map_of_mem given) p.place (List.mem_map_of_mem old)
    rw [← Plane.roundsTilt slight inside place, ← spotsTilt] at winds
    have off := Plane.aloofOff (aloof j given) (List.mem_map_of_mem member)
    refine (Plane.filledTurning off (Plane.levelSubset level ?_) filled long).resolve_left winds
    refine List.cons_subset.mpr ⟨List.mem_append_right _ (List.mem_flatten.mpr ?_), List.subset_append_left ..⟩
    exact ⟨_, List.mem_map_of_mem known, List.mem_map_of_mem member⟩
  · exact List.pairwise_map.mpr ((holesBeyond holed slight inside').imp fun apart => ⟨apart.1, apart.2.1⟩)

theorem ringsSought : Sought ring (joinOrder holes) :=
  attachSought (holedAround holed left slight inside inside')
    (joinOrderOrdered fun _ mem => holed.holes _ (List.mem_map_of_mem mem))

theorem ringsHoled (clear : Clear ring (joinOrder holes)) : ∃ whole ts, Bridged ring (joinOrder holes) whole ∧
    Joined s ring (joinOrder holes) whole ∧ Plane.Clipped (Node.spot s) whole ts ∧
      Triangulation.ofRings 0 ring holes = .ok (ts.map fun t => (cornerOf t).triangle) := by
  have simple (k) (mem : k ∈ holes) := holed.holes _ (List.mem_map_of_mem mem)
  obtain ⟨whole, bridged, joined⟩ :=
    attachAll (holedAround holed left slight inside inside') (joinOrderOrdered simple) clear
  have long : 3 ≤ ring.length := by simpa using holed.outer.long
  have size := joined.size
  obtain ⟨ts, done, clipped⟩ := clipFilled (n := whole.length - 3) (by omega) joined.filled
  refine ⟨whole, ts, bridged, joined, clipped, ?_⟩
  have some : ts ≠ [] := by
    rintro rfl
    have := Plane.clippedLength clipped
    simp at this
    omega
  obtain ⟨t, us, rfl⟩ := List.exists_cons_of_ne_nil some
  have area : ¬ring.area ≤ 0 := ((areaSign ring).mpr left).not_ge
  have run : (joinOrder holes).foldlM (Triangulation.attach 0) ring = .ok whole := bridgedRun bridged
  simp only [Triangulation.ofRings, distinctKept long holed.outer.nodup, if_neg area]
  change ((joinOrder holes).foldlM (Triangulation.attach 0) ring).bind _ = _
  rw [run]
  simp only [Except.bind, done]
  rfl

theorem wholeAside {whole : Ring α} {ts : List (Node α × Node α × Node α)} (joined : Joined s ring (joinOrder holes) whole)
    (clipped : Plane.Clipped (Node.spot s) whole ts) (within : whole.map Node.place ⊆ l) {w : α × α} (here : w ∈ l) {t}
    (mem : t ∈ ts) (inner : Plane.Inner (t.1.spot s) (t.2.1.spot s) (t.2.2.spot s) (Plane.tilt s w)) :
    Plane.rounds (ring.map Node.place) w = 1 ∧
      ∀ k ∈ holes, Plane.rounds (k.2.map Node.place) w = 0 ∧ Plane.Off (k.2.map Node.place) w := by
  have simple (k) (mem : k ∈ holes) := holed.holes _ (List.mem_map_of_mem mem)
  have around := holedAround holed left slight inside inside'
  have perm := joinOrderPerm simple
  have level {r : Ring α} (part : r.map Node.place ⊆ l) : Plane.Level (Plane.tilt s w :: r.map (Node.spot s)) := by
    rw [spotsTilt, ← List.map_cons]
    exact Plane.slightLevel (Plane.slightSubset slight (List.cons_subset.mpr ⟨here, part⟩))
  have off := Plane.clippedOff clipped joined.filled mem inner
  have apart (p) (mem : p ∈ whole.map (Node.spot s)) := Plane.levelOther (level within) (Plane.offNew off) mem
  have winds := Plane.clippedWinds clipped apart mem inner
  have outer := Plane.filledTurning (fun e edge => off e (joined.outer edge)) (level inside) around.filled around.long
  have offHole (k) (mem : k ∈ joinOrder holes) : Plane.Off (k.2.map (Node.spot s)) (Plane.tilt s w) :=
    fun e edge => off e (joined.inner k mem edge)
  have low (k) (mem : k ∈ joinOrder holes) : Plane.turning (k.2.map (Node.spot s)) (Plane.tilt s w) ≤ 0 := by
    obtain ⟨j, given, rfl⟩ := joinOrderFrom simple mem
    obtain ⟨plain, right⟩ := around.holes _ (List.mem_map_of_mem mem)
    have := Plane.simpleBack plain (level (holePlaces (inside' j given))) right (offHole _ mem)
    omega
  rw [joined.turning] at winds
  have none := Plane.partsNone low (by omega)
  rw [List.sum_eq_zero (List.forall_mem_map.mpr none)] at winds
  constructor
  · rw [← Plane.roundsTilt slight inside here, ← spotsTilt]
    omega
  · intro k given
    have known := perm.mem_iff.mpr (List.mem_map_of_mem given)
    refine ⟨?_, Plane.offTilt (s := s) ?_⟩
    · have zero := none _ known
      rcases holeTurning slight (inside' k given) here with same | back
      · exact same.symm.trans zero
      · exact neg_eq_zero.mp (back.symm.trans zero)
    · rw [← spotsTilt]
      exact Plane.sameOff (sameMap _ (holeSame k.2)) (offHole _ known)

end Rings

end SceneStream.Geometry
