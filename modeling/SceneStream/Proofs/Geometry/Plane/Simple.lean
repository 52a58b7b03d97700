import SceneStream.Proofs.Geometry.Plane.Clipped

/-! Simple rings. One that runs to the left is filled, once the plane is tilted so that no two of its members are at one
height. -/
namespace SceneStream.Geometry.Plane
variable {α β : Type} [Field α] [LinearOrder α]

structure Simple (r : List (α × α)) : Prop where
  long : 3 ≤ r.length
  nodup : r.Nodup
  apart : ∀ e ∈ edges r, ∀ f ∈ edges r, e ≠ f → Apart e.1 e.2 f.1 f.2

section Members
variable {r : List β} (nodup : r.Nodup)
include nodup

theorem cornerOnce {t u} (first : t ∈ triples r) (second : u ∈ triples r) (same : t.2.1 = u.2.1) : t = u :=
  List.inj_on_of_nodup_map (f := (·.2.1)) (by rwa [triplesMiddle]) first second same

theorem besideEither {t} (corner : t ∈ triples r) {p : β} (beside : Beside r t.2.1 p) : p = t.1 ∨ p = t.2.2 := by
  rcases beside with edge | edge
  · obtain ⟨u, mem, here, rfl⟩ := edgeAfter edge
    exact Or.inr (cornerOnce nodup corner mem here.symm ▸ rfl)
  · obtain ⟨u, mem, rfl, here⟩ := edgeBefore edge
    exact Or.inl (cornerOnce nodup corner mem here.symm ▸ rfl)

theorem cornerDiffer (long : 3 ≤ r.length) {t} (corner : t ∈ triples r) :
    t.1 ≠ t.2.1 ∧ t.2.1 ≠ t.2.2 ∧ t.1 ≠ t.2.2 := by
  obtain ⟨k, turned⟩ := cornerBegun long corner
  have once := turned.nodup_iff.mpr nodup
  simp only [List.nodup_cons, List.mem_cons, not_or] at once
  exact ⟨once.1.1, once.2.1.1, once.1.2.1⟩

theorem edgeDiffer (long : 3 ≤ r.length) {e} (edge : e ∈ edges r) : e.1 ≠ e.2 := by
  rw [← triplesAfter] at edge
  obtain ⟨t, corner, rfl⟩ := List.mem_map.mp edge
  exact (cornerDiffer nodup long corner).2.1

end Members

variable {r : List (α × α)}

theorem simpleWoven (simple : Simple r) (level : Level r) : Woven r where
  level := level
  proper := fun _ => edgeDiffer simple.nodup simple.long
  once := List.Nodup.of_map Prod.fst (by rw [edgesFirst]; exact simple.nodup)
  free := fun e mem f mem' => by
    by_cases same : f = e
    · exact Or.inl same
    · exact Or.inr (Or.inr (simple.apart e mem f mem' fun eq => same eq.symm))
  ends := fun _ corner => (cornerDiffer simple.nodup simple.long corner).2.2
  sectors := fun t corner p beside within => by
    rcases besideEither simple.nodup corner beside with rfl | rfl
    · exact withinEnd within
    · exact withinBegin within

def sweptArea (r : List (α × α)) : α := ((edges r).map fun e => e.1.1 * e.2.2 - e.2.1 * e.1.2).sum

omit [LinearOrder α] in
theorem sweptTriangle (a b c : α × α) : sweptArea [a, b, c] = turn a b c := by
  simp only [sweptArea, edges, turn, List.cons_append, List.nil_append, List.zip_cons_cons, List.map_cons, List.sum_cons,
    List.zip_nil_left, List.map_nil, List.sum_nil]
  ring

theorem reversedEdges (r : List β) : (edges r.reverse).Perm ((edges r).map Prod.swap) := by
  cases r with
  | nil => exact .refl _
  | cons a l =>
    have begun : (a :: l).reverse.IsRotated (a :: l.reverse) := by
      rw [List.reverse_cons]
      exact List.isRotated_append
    refine (edgesTurned begun).trans ?_
    rw [edgesReverse]
    exact List.reverse_perm _

theorem reversedEdge {r : List β} {a b : β} (edge : (a, b) ∈ edges r.reverse) : (b, a) ∈ edges r := by
  obtain ⟨⟨x, y⟩, mem, same⟩ := List.mem_map.mp ((reversedEdges r).mem_iff.mp edge)
  cases same
  exact mem

theorem simpleReversed (simple : Simple r) : Simple r.reverse where
  long := by simpa using simple.long
  nodup := List.nodup_reverse.mpr simple.nodup
  apart := by
    have perm := reversedEdges r
    intro e mem f mem' differ
    obtain ⟨e, first, rfl⟩ := List.mem_map.mp (perm.mem_iff.mp mem)
    obtain ⟨f, second, rfl⟩ := List.mem_map.mp (perm.mem_iff.mp mem')
    have apart := simple.apart e first f second fun same => differ (same ▸ rfl)
    exact apartSymm (apartTurned (apartSymm (apartTurned apart)))

omit [LinearOrder α] in
theorem sweptReversed (r : List (α × α)) : sweptArea r.reverse = -sweptArea r := by
  rw [sweptArea, ((reversedEdges r).map _).sum_eq, List.map_map, sweptArea,
    List.sum_neg, List.map_map]
  refine congrArg List.sum (List.map_congr_left fun e _ => ?_)
  simp

variable [IsStrictOrderedRing α]

theorem filledClipped {f : β → α × α} {n : Nat} {r : List β} (long : r.length = n + 3) (filled : Filled (r.map f)) :
    ∃ ts, Clipped f r ts := by
  induction n generalizing r with
  | zero =>
    obtain ⟨a, b, c, rfl⟩ := List.length_eq_three.mp long
    exact ⟨_, .last (.refl _) (triangleLeft filled)⟩
  | succ n ih =>
    obtain ⟨t, ear⟩ := earExists filled (by simp [long])
    obtain ⟨⟨a, b, c⟩, corner, rfl⟩ := List.mem_map.mp (triplesMap f r ▸ ear.mem)
    obtain ⟨k, turned⟩ := cornerBegun (by omega) corner
    have size := turned.perm.length_eq
    rcases k with _ | ⟨d, k⟩
    · simp [long] at size
    obtain ⟨ts, rest⟩ := ih (by simp at size ⊢; omega) (earFilled turned ear filled).2
    exact ⟨_, .ear turned ear (.refl _) rest⟩

theorem filledSwept (filled : Filled r) (long : 3 ≤ r.length) : 0 < sweptArea r := by
  obtain ⟨n, size⟩ := Nat.exists_eq_add_of_le' long
  obtain ⟨ts, clipped⟩ := filledClipped (f := id) size (by simpa using filled)
  have some : ts ≠ [] := by
    rintro rfl
    have := clippedLength clipped
    simp at this
    omega
  have sum : sweptArea r = (ts.map fun t => turn t.1 t.2.1 t.2.2).sum := by
    rw [sweptArea, clippedSum _ (fun _ _ => by ring) clipped]
    exact congrArg List.sum (List.map_congr_left fun t _ => sweptTriangle ..)
  rw [sum]
  exact List.sum_pos _ (List.forall_mem_map.mpr (clippedLeft clipped)) (by simpa using some)

theorem filledTop (woven : Woven r) {z : α × α} (mem : z ∈ r) (top : ∀ p ∈ r, p.2 ≤ z.2)
    (none : ∀ t ∈ triples r, t.2.1 = z → ¬angle z t.1 < angle z t.2.2) : Filled r := by
  refine filledFrom woven mem ?_
  rw [topCorners top, markNone fun t corner wraps => none t corner wraps.1 wraps.2, neg_zero]

theorem simpleEither (simple : Simple r) (level : Level r) : Filled r ∨ Filled r.reverse := by
  obtain ⟨z, mem, top⟩ := topVertex (List.ne_nil_of_length_pos (by linarith [simple.long] : 0 < r.length))
  obtain ⟨t, corner, rfl⟩ := cornerAt mem
  by_cases wraps : angle t.2.1 t.1 < angle t.2.1 t.2.2
  · refine Or.inr (filledTop (simpleWoven (simpleReversed simple) fun p first q second => ?_)
      (List.mem_reverse.mpr mem) (fun p mem => top p (List.mem_reverse.mp mem)) fun u corner' same wraps' => ?_)
    · exact level p (List.mem_reverse.mp first) q (List.mem_reverse.mp second)
    · obtain ⟨before, after⟩ := triplesInside corner'
      obtain ⟨v, mem, here, next⟩ := edgeAfter (reversedEdge before)
      obtain ⟨w, mem', last, here'⟩ := edgeBefore (reversedEdge after)
      obtain rfl := cornerOnce simple.nodup mem corner (here.trans same)
      obtain rfl := cornerOnce simple.nodup mem' corner (here'.trans same)
      rw [← next, ← last] at wraps'
      exact wraps.not_gt wraps'
  · refine Or.inl (filledTop (simpleWoven simple level) mem top fun u corner' same wraps' => ?_)
    rw [cornerOnce simple.nodup corner' corner same] at wraps'
    exact wraps wraps'

def tilt (s : α) (p : α × α) : α × α := (p.1, p.2 + s * p.1)

omit [LinearOrder α] [IsStrictOrderedRing α] in
theorem turnTilt (s : α) (a b c : α × α) : turn (tilt s a) (tilt s b) (tilt s c) = turn a b c := by
  simp only [turn, tilt]
  ring

omit [LinearOrder α] [IsStrictOrderedRing α] in
theorem tiltBack (s : α) (p : α × α) : tilt s (tilt (-s) p) = p := by
  simp [tilt]

omit [LinearOrder α] [IsStrictOrderedRing α] in
theorem tiltSame {s : α} {p q : α × α} (same : tilt s p = tilt s q) : p = q := by
  have back := congrArg (tilt (-s)) same
  simpa [tilt] using back

omit [LinearOrder α] [IsStrictOrderedRing α] in
theorem sweptTilt (s : α) (r : List (α × α)) : sweptArea (r.map (tilt s)) = sweptArea r := by
  rw [sweptArea, edgesMap, List.map_map, sweptArea]
  refine congrArg List.sum (List.map_congr_left fun e _ => ?_)
  simp only [Function.comp_apply, Prod.map_fst, Prod.map_snd, tilt]
  ring

theorem segmentTilt (s : α) {w p q : α × α} (on : w ∈ segment α (tilt s p) (tilt s q)) :
    tilt (-s) w ∈ segment α p q := by
  obtain ⟨t, t0, t1, rfl⟩ := onSegment.mp on
  refine onSegment.mpr ⟨t, t0, t1, Prod.ext rfl ?_⟩
  simp only [tilt]
  ring

theorem tiltOn {s : α} {w p q : α × α} : tilt s w ∈ segment α (tilt s p) (tilt s q) ↔ w ∈ segment α p q := by
  have back (p : α × α) : tilt (-s) (tilt s p) = p := by simp [tilt]
  constructor
  · intro on
    have straight := segmentTilt s on
    rwa [back] at straight
  · intro on
    rw [← back p, ← back q] at on
    have tilted := segmentTilt (-s) on
    rwa [neg_neg] at tilted

theorem apartTilt (s : α) {p q x y : α × α} (apart : Apart p q x y) :
    Apart (tilt s p) (tilt s q) (tilt s x) (tilt s y) := by
  intro w first second
  have ends := apart _ (segmentTilt s first) (segmentTilt s second)
  rw [← tiltBack s w]
  exact ends.imp (Or.imp (congrArg _) (congrArg _)) (Or.imp (congrArg _) (congrArg _))

theorem simpleTilt (s : α) {r : List (α × α)} (simple : Simple r) : Simple (r.map (tilt s)) where
  long := by simpa using simple.long
  nodup := simple.nodup.map fun _ _ => tiltSame
  apart := by
    intro e mem f mem' differ
    obtain ⟨e, first, rfl⟩ := mappedEdge mem
    obtain ⟨f, second, rfl⟩ := mappedEdge mem'
    exact apartTilt s (simple.apart e first f second fun same => differ (same ▸ rfl))

theorem tiltLevel (r : List (α × α)) : ∃ s, Level (r.map (tilt s)) := by
  obtain ⟨s, new⟩ := Infinite.exists_notMem_finset
    ((r ×ˢ r).map fun e => -((e.1.2 - e.2.2) / (e.1.1 - e.2.1))).toFinset
  refine ⟨s, fun p first q second same => ?_⟩
  obtain ⟨p, here, rfl⟩ := List.mem_map.mp first
  obtain ⟨q, there, rfl⟩ := List.mem_map.mp second
  by_contra differ
  have height : p.2 + s * p.1 = q.2 + s * q.1 := same
  by_cases across : p.1 = q.1
  · refine differ (congrArg _ (Prod.ext across ?_))
    rwa [across, add_left_inj] at height
  · refine new (List.mem_toFinset.mpr (List.mem_map.mpr ⟨(p, q), by simp [here, there], ?_⟩))
    have apart := sub_ne_zero.mpr across
    field_simp
    linear_combination -height

theorem simpleFilledAt {s : α} {r : List (α × α)} (simple : Simple r) (left : 0 < sweptArea r)
    (level : Level (r.map (tilt s))) : Filled (r.map (tilt s)) := by
  refine (simpleEither (simpleTilt s simple) level).resolve_right fun filled => ?_
  have right := filledSwept filled (by simpa using simple.long)
  rw [sweptReversed, sweptTilt] at right
  linarith

theorem simpleFilled {r : List (α × α)} (simple : Simple r) (left : 0 < sweptArea r) :
    ∃ s, Filled (r.map (tilt s)) := by
  obtain ⟨s, level⟩ := tiltLevel r
  exact ⟨s, simpleFilledAt simple left level⟩

theorem simpleSwept {r : List (α × α)} (simple : Simple r) : sweptArea r ≠ 0 := by
  obtain ⟨s, level⟩ := tiltLevel r
  intro zero
  rcases simpleEither (simpleTilt s simple) level with filled | filled
  · exact (filledSwept filled (by simpa using simple.long)).ne' ((sweptTilt s r).trans zero)
  · have right := filledSwept filled (by simpa using simple.long)
    rw [sweptReversed, sweptTilt, zero, neg_zero] at right
    exact right.false

end SceneStream.Geometry.Plane
