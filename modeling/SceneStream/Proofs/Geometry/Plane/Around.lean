import SceneStream.Proofs.Geometry.Plane.Join
import SceneStream.Proofs.Geometry.Plane.Visible

/-! A ring around holes, simple rings that run to the right, of which none is in another one. A vertex of the ring is seen
from each vertex of a hole, and when a hole is joined to it the ring is around those that are left. -/
namespace SceneStream.Geometry.Plane
variable {α : Type} [Field α] [LinearOrder α]

structure Around (r : List (α × α)) (ks : List (List (α × α))) : Prop where
  filled : Filled r
  long : 3 ≤ r.length
  level : Level (r ++ ks.flatten)
  holes : ∀ k ∈ ks, Simple k ∧ sweptArea k < 0
  aloof : ∀ k ∈ ks, Aloof r k
  inside : ∀ k ∈ ks, ∀ p ∈ k, turning r p = 1
  apart : ks.Pairwise fun j k => Aloof j k ∧ ∀ p ∈ k, turning j p = 0

variable [IsStrictOrderedRing α] {r k : List (α × α)} {h p t : α × α}

omit [Field α] [LinearOrder α] [IsStrictOrderedRing α] in
theorem levelSubset {l m : List (α × α)} (level : Level l) (inside : m ⊆ l) : Level m :=
  fun p first q second => level p (inside first) q (inside second)

theorem aloofOff (aloof : Aloof r k) (mem : p ∈ k) : Off r p := by
  obtain ⟨u, corner, rfl⟩ := cornerAt mem
  exact fun e edge on => aloof e edge _ (triplesInside corner).2 _ on (left_mem_segment ..)

theorem simpleUnder (simple : Simple r) (level : Level r) (right : sweptArea r < 0) : ∀ z ∈ r, depth r z = -1 := by
  have woven := simpleWoven simple level
  have unfilled : ¬Filled r := fun filled => (filledSwept filled simple.long).not_gt right
  obtain ⟨z, mem, top⟩ := topVertex (List.ne_nil_of_length_pos (by linarith [simple.long] : 0 < r.length))
  obtain ⟨t, corner, rfl⟩ := cornerAt mem
  have wraps : angle t.2.1 t.1 < angle t.2.1 t.2.2 := by
    by_contra straight
    refine unfilled (filledTop woven mem top fun u corner' same wraps => straight ?_)
    rwa [cornerOnce simple.nodup corner' corner same] at wraps
  have once := markOnce (P := fun u : (α × α) × (α × α) × (α × α) => u.2.1 = t.2.1 ∧ angle t.2.1 u.1 < angle t.2.1 u.2.2)
    (List.Nodup.of_map (f := (·.2)) (by rw [triplesAfter]; exact woven.once))
    (fun u first v second here there => cornerOnce simple.nodup first second (here.1.trans there.1.symm)) corner ⟨rfl, wraps⟩
  intro x inside
  rw [depthSame woven x inside _ mem, topCorners top, once]

theorem turningReversed (r : List (α × α)) (z : α × α) : turning r.reverse z = -turning r z := by
  rw [turning, ((reversedEdges r).map _).sum_eq, List.map_map, turning, List.sum_neg, List.map_map]
  exact congrArg List.sum (List.map_congr_left fun e _ => crossingReversed z e.1 e.2)

theorem simpleBack (simple : Simple r) (level : Level (h :: r)) (right : sweptArea r < 0) (off : Off r h) :
    turning r h = 0 ∨ turning r h = -1 := by
  have back := reversedEdges r
  have filled := (simpleEither simple (levelSubset level (List.subset_cons_self ..))).resolve_left fun filled =>
    (filledSwept filled simple.long).not_gt right
  have off' : Off r.reverse h := by
    intro e edge on
    obtain ⟨f, other, rfl⟩ := List.mem_map.mp (back.mem_iff.mp edge)
    exact off f other (segment_symm α f.1 f.2 ▸ on)
  have winds := filledTurning off' (levelSubset level (by simp)) filled (by simpa using simple.long)
  rw [turningReversed] at winds
  omega

section Aloof
variable (aloof : Aloof r k) (level : Level (r ++ k)) (woven : Woven r)
include aloof level woven

theorem turningSame (proper : ∀ e ∈ edges k, e.1 ≠ e.2) : ∀ x ∈ r, ∀ y ∈ r, turning k x = turning k y := by
  refine ringConstant fun e edge => ?_
  obtain ⟨first, second⟩ := edgesInside edge
  have free : Free k e.1 e.2 := fun f other => Or.inr (Or.inr fun w on onward => absurd onward (aloof e edge f other w on))
  have along := sweep (woven.proper e edge) proper (levelSubset level (by grind)) free true
  rwa [windingTurning (aloofMembers aloof first), windingTurning (aloofMembers aloof second), eq_comm] at along

theorem turningOutside (proper : ∀ e ∈ edges k, e.1 ≠ e.2) (low : ∀ p ∈ k, ∃ q ∈ r, p.2 < q.2) :
    ∀ x ∈ r, turning k x = 0 := by
  intro x mem
  obtain ⟨z, here, top⟩ := topVertex (List.ne_nil_of_mem mem)
  have under {p : α × α} (inside : p ∈ k) : p.2 < z.2 := by
    obtain ⟨q, there, less⟩ := low p inside
    exact less.trans_le (top q there)
  rw [turningSame aloof level woven proper x mem z here]
  refine List.sum_eq_zero (List.forall_mem_map.mpr fun e edge => crossingNone (Or.inr ?_))
  exact ⟨under (edgesInside edge).1, under (edgesInside edge).2⟩

end Aloof

omit [IsStrictOrderedRing α] in
theorem turningBelow (winds : turning r h ≠ 0) : ∃ q ∈ r, h.2 < q.2 := by
  -- A ring that winds about a point reaches above it.
  by_contra none
  push Not at none
  refine winds (List.sum_eq_zero (List.forall_mem_map.mpr fun e edge => ?_))
  obtain ⟨first, second⟩ := edgesInside edge
  rw [crossing, markFalse fun up => up.2.1.not_ge (none _ second), markFalse fun down => down.2.1.not_ge (none _ first),
    sub_zero]

section Around
variable {ks : List (List (α × α))} (around : Around r (k :: ks)) (mem : h ∈ k)
include around

omit [IsStrictOrderedRing α] in
theorem aroundLevel : Level (r ++ k) :=
  fun p first q second => around.level p (by grind) q (by grind)

omit [IsStrictOrderedRing α] in
theorem aroundWoven : Woven k :=
  simpleWoven (around.holes k (by simp)).1 (levelSubset (aroundLevel around) (by simp))

omit [IsStrictOrderedRing α] in
theorem aroundLow : ∀ p ∈ k, ∃ q ∈ r, p.2 < q.2 := fun p inside =>
  turningBelow (by rw [around.inside k (by simp) p inside]; exact one_ne_zero)

include mem

theorem aroundSeen : ∃ t ∈ r, Free r h t := by
  have off := aloofOff (around.aloof k (by simp)) mem
  refine freeVertex off (levelSubset (aroundLevel around) (by grind)) around.filled around.long ?_
  rw [around.inside k (by simp) h mem]
  exact one_ne_zero

theorem aroundCorner (here : t ∈ r) (free : Free r h t) :
    ∃ u ∈ triples r, u.2.1 = t ∧ Within (angle t u.2.2) (angle t h) (angle t u.1) := by
  have off := aloofOff (around.aloof k (by simp)) mem
  refine (seenCorner off (levelSubset (aroundLevel around) (by grind)) around.filled.toWoven here free ?_).2
  rw [around.inside k (by simp) h mem, around.filled.depth t here]
  exact one_ne_zero

theorem aroundHole (here : t ∈ r) (own : ∀ e ∈ edges k, ∀ w ∈ segment α h t, w ∈ segment α e.1 e.2 → w = h) :
    Free k h t ∧ ∀ u ∈ triples k, u.2.1 = h → Within (angle h u.2.2) (angle h t) (angle h u.1) := by
  have woven := aroundWoven around
  obtain ⟨simple, right⟩ := around.holes k (by simp)
  have level := aroundLevel around
  have aloof := around.aloof k (by simp)
  have free : Free k h t := by
    refine fun e edge => Or.inr (Or.inr fun w on onward => ?_)
    obtain rfl := own e edge w on onward
    exact ⟨Or.inl rfl, besideEnd woven mem (Or.inl edge) onward⟩
  refine ⟨free, fun u corner same => ?_⟩
  have outside := turningOutside aloof level around.filled.toWoven woven.proper (aroundLow around) t here
  obtain ⟨-, v, corner', same', within⟩ := seenCorner (aloofOff (aloofTurned aloof) here)
    (levelSubset level (by grind)) woven mem (freeTurned free) (by
      rw [outside, simpleUnder simple (levelSubset level (by simp)) right h mem]
      decide)
  rwa [cornerOnce simple.nodup corner corner' (same.trans same'.symm)]

theorem aroundJoin {j : List (α × α)} {a b c d : α × α} {rs ks' : List ((α × α) × (α × α) × (α × α))}
    (join : Join j r k t h a b c d rs ks') (free : Free r h t)
    (own : ∀ e ∈ edges k, ∀ w ∈ segment α h t, w ∈ segment α e.1 e.2 → w = h)
    (clear : ∀ k' ∈ ks, ∀ e ∈ edges k', ∀ w ∈ segment α h t, w ∉ segment α e.1 e.2)
    (corner : Within (angle t b) (angle t h) (angle t a)) : Around j ks := by
  have woven := aroundWoven around
  have level := aroundLevel around
  obtain ⟨first, second⟩ := joinEnds join
  obtain ⟨free', within⟩ := aroundHole around mem (besideInside (cornerBeside first).1).1 own
  have bridge : Bridge r k t h a b c d :=
    ⟨around.aloof k (by simp), freeTurned free, free', corner, within _ second rfl⟩
  have apart := List.pairwise_cons.mp around.apart
  refine ⟨joinFilled join bridge level around.filled woven (aroundLow around), ?_, ?_, ?_, ?_, ?_, apart.2⟩
  · rw [(joinMembers join).length_eq]
    have long := around.long
    simp only [List.length_cons, List.length_append]
    omega
  · refine levelSubset around.level fun p inside => ?_
    rw [List.mem_append, joinInside join] at inside
    simp only [List.flatten_cons, List.mem_append]
    tauto
  · exact fun k' other => around.holes k' (List.mem_cons_of_mem _ other)
  · intro k' other e edge f edge' w on onward
    rcases (joinEdge join).mp edge with rfl | rfl | old | old
    · exact clear k' other f edge' w (segment_symm α h t ▸ on) onward
    · exact clear k' other f edge' w on onward
    · exact around.aloof k' (List.mem_cons_of_mem _ other) e old f edge' w on onward
    · exact (apart.1 k' other).1 e old f edge' w on onward
  · intro k' other p inside
    rw [joinTurning join, around.inside k' (List.mem_cons_of_mem _ other) p inside, (apart.1 k' other).2 p inside, add_zero]

end Around

end SceneStream.Geometry.Plane
