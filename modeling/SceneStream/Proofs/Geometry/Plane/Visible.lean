import SceneStream.Proofs.Geometry.Plane.Simple

/-! What is seen from inside of a ring. A filled ring winds at most once about a point that is on no edge, and then the
point lies in one of the triangles that the ring is cut into, from where it sees a vertex. -/
namespace SceneStream.Geometry.Plane
variable {α β : Type} [Field α] [LinearOrder α]

def Off (r : List (α × α)) (h : α × α) : Prop := ∀ e ∈ edges r, h ∉ segment α e.1 e.2

section Clipped
variable {f : β → α × α} {r : List β} {ts : List (β × β × β)}

theorem clippedSides (clipped : Clipped f r ts) : ∀ e ∈ edges r, ∃ t ∈ ts, e ∈ edges [t.1, t.2.1, t.2.2] := by
  induction clipped with
  | last turned => exact fun e edge => ⟨_, List.mem_singleton_self _, (edgesTurned turned).mem_iff.mpr edge⟩
  | ear turned ear kept rest ih =>
    obtain ⟨d, d', cut, -⟩ := tipCut turned (List.cons_ne_nil _ _)
    intro e edge
    rcases List.mem_append.mp (cut.edges.mem_iff.mp edge) with tip | other
    · exact ⟨_, List.mem_cons_self .., cut.leftEdges.mem_iff.mpr (List.mem_cons_of_mem _ tip)⟩
    · obtain ⟨t, mem, side⟩ := ih e ((edgesTurned kept).mem_iff.mp (cut.rightEdges.mem_iff.mpr (List.mem_cons_of_mem _ other)))
      exact ⟨t, List.mem_cons_of_mem _ mem, side⟩

end Clipped

variable [IsStrictOrderedRing α] {r : List (α × α)} {a b c h p q t w : α × α}

theorem offOther (off : Off r h) (mem : p ∈ r) : p ≠ h := by
  rintro rfl
  obtain ⟨u, corner, rfl⟩ := cornerAt mem
  exact off _ (triplesInside corner).2 (left_mem_segment ..)

theorem sideIn {e : (α × α) × (α × α)} (left : 0 < turn a b c) (side : e ∈ edges [a, b, c])
    (on : w ∈ segment α e.1 e.2) : InTriangle a b c w ∧ ¬Inner a b c w := by
  have first {x y z : α × α} (left : 0 < turn x y z) (on : w ∈ segment α x y) :
      turn x y w = 0 ∧ 0 ≤ turn y z w ∧ 0 ≤ turn z x w := by
    obtain ⟨s, s0, s1, second, third, zero, -⟩ := thirdAt (b := z) (segment_symm α x y ▸ on)
    have whole : turn y z x = turn x y z := (turnRotate x y z).symm
    rw [whole] at second third
    exact ⟨zero, second ▸ mul_nonneg s0 left.le, third ▸ mul_nonneg (sub_nonneg.mpr s1) left.le⟩
  have sides : e = (a, b) ∨ e = (b, c) ∨ e = (c, a) := by simpa [edges] using side
  rcases sides with rfl | rfl | rfl
  · obtain ⟨zero, bc, ca⟩ := first left on
    exact ⟨⟨zero.ge, bc, ca⟩, fun inner => inner.1.ne' zero⟩
  · obtain ⟨zero, ca, ab⟩ := first (turnRotate a b c ▸ left) on
    exact ⟨⟨ab, zero.ge, ca⟩, fun inner => inner.2.1.ne' zero⟩
  · obtain ⟨zero, ab, bc⟩ := first (turnRotate c a b ▸ left) on
    exact ⟨⟨ab, bc, zero.ge⟩, fun inner => inner.2.2.ne' zero⟩

theorem innerNext {a' b' c' : α × α} (left : 0 < turn a b c) (first : InTriangle a b c w) (second : Inner a' b' c' w) :
    ∃ v, Inner a b c v ∧ Inner a' b' c' v := by
  have half : (0 : α) < 1 / 2 := half_pos one_pos
  have short : (1 / 2 : α) < 1 := half_lt_self one_pos
  obtain ⟨g, middle⟩ : ∃ g, Inner a b c g := ⟨_, innerPart left half short half short rfl⟩
  obtain ⟨u, u0, kept⟩ := stayPositive [(turn a' b' w, turn a' b' g - turn a' b' w),
    (turn b' c' w, turn b' c' g - turn b' c' w), (turn c' a' w, turn c' a' g - turn c' a' w)] (by simpa [Inner] using second)
  obtain ⟨s, s0, less⟩ := exists_between (lt_min u0 one_pos)
  rw [lt_min_iff] at less
  have toward {x y : α} (x0 : 0 ≤ x) (y0 : 0 < y) : 0 < x + s * (y - x) := by
    nlinarith [mul_pos s0 y0, mul_nonneg (sub_pos.mpr less.2).le x0]
  have stays := kept s s0 less.1
  simp only [List.forall_mem_cons, List.not_mem_nil, false_imp_iff, implies_true, and_true] at stays
  refine ⟨(w.1 + s * (g.1 - w.1), w.2 + s * (g.2 - w.2)), ⟨?_, ?_, ?_⟩, ?_, ?_, ?_⟩ <;> rw [turnAlong]
  · exact toward first.1 middle.1
  · exact toward first.2.1 middle.2.1
  · exact toward first.2.2 middle.2.2
  · exact stays.1
  · exact stays.2.1
  · exact stays.2.2

theorem clippedOff {f : β → α × α} {r : List β} {ts : List (β × β × β)} (clipped : Clipped f r ts)
    (filled : Filled (r.map f)) {t} (mem : t ∈ ts) (inner : Inner (f t.1) (f t.2.1) (f t.2.2) w) : Off (r.map f) w := by
  intro e edge on
  obtain ⟨e, edge', rfl⟩ := mappedEdge edge
  obtain ⟨u, mem', side⟩ := clippedSides clipped e edge'
  have left := clippedLeft clipped u mem'
  have side' : Prod.map f f e ∈ edges ([u.1, u.2.1, u.2.2].map f) := edgeMapped f side
  obtain ⟨inside, border⟩ := sideIn left side' on
  by_cases same : u = t
  · exact border (same ▸ inner)
  · have : Std.Symm fun t u : β × β × β => ∀ v, ¬(Inner (f t.1) (f t.2.1) (f t.2.2) v ∧
        Inner (f u.1) (f u.2.1) (f u.2.2) v) := ⟨fun t u apart v both => apart v both.symm⟩
    obtain ⟨v, one, two⟩ := innerNext left inside inner
    exact (clippedApart clipped filled).forall mem' mem same v ⟨one, two⟩

theorem vertexAt (left : 0 < turn a b c) (bc : turn b c h = 0) (ca : turn c a h = 0) (ab : 0 ≤ turn a b h) : h = c := by
  obtain ⟨s, -, -, rfl⟩ := onSegment.mp (sideMem (turnRotate a b c ▸ left) bc ca.ge ab)
  rw [turnAlong, turnFirst, turnRotate c a b] at ca
  have last : s = 1 := by
    have product : (1 - s) * turn a b c = 0 := by linear_combination ca
    linarith [(mul_eq_zero.mp product).resolve_right left.ne']
  rw [last]
  simp

theorem wayInner (left : 0 < turn a b c) (ab : 0 ≤ turn a b h) (bc : 0 < turn b c h) (ca : 0 < turn c a h)
    (on : w ∈ segment α h c) : w = h ∨ w = c ∨ Inner a b c w := by
  rcases segmentInner on with first | last | ⟨s, s0, s1, rfl⟩
  · exact Or.inl first
  · exact Or.inr (Or.inl last)
  have rest := sub_pos.mpr s1
  refine Or.inr (Or.inr ⟨?_, ?_, ?_⟩) <;> rw [turnAlong]
  · nlinarith [mul_pos s0 left, mul_nonneg rest.le ab]
  · rw [turnSecond]
    nlinarith [mul_pos rest bc]
  · rw [turnFirst]
    nlinarith [mul_pos rest ca]

theorem vertexWay (left : 0 < turn a b c) (inside : InTriangle a b c h) (other : h ≠ a ∧ h ≠ b ∧ h ≠ c) :
    ∃ p, (p = a ∨ p = b ∨ p = c) ∧ ∀ w ∈ segment α h p, w = h ∨ w = p ∨ Inner a b c w := by
  obtain ⟨ab, bc, ca⟩ := inside
  have left' : 0 < turn b c a := turnRotate a b c ▸ left
  have left'' : 0 < turn c a b := turnRotate b c a ▸ left'
  rcases bc.eq_or_lt with zero | bc
  · have ca := ca.lt_of_ne fun zero' => other.2.2 (vertexAt left zero.symm zero'.symm ab)
    have ab := ab.lt_of_ne fun zero' => other.2.1 (vertexAt left'' zero'.symm zero.symm ca.le)
    refine ⟨a, Or.inl rfl, fun w on => (wayInner left' bc ca ab on).imp_right (Or.imp_right fun inner => ?_)⟩
    exact ⟨inner.2.2, inner.1, inner.2.1⟩
  rcases ca.eq_or_lt with zero | ca
  · have ab := ab.lt_of_ne fun zero' => other.1 (vertexAt left' zero.symm zero'.symm bc.le)
    refine ⟨b, Or.inr (Or.inl rfl), fun w on => (wayInner left'' ca ab bc on).imp_right (Or.imp_right fun inner => ?_)⟩
    exact ⟨inner.2.1, inner.2.2, inner.1⟩
  · exact ⟨c, Or.inr (Or.inr rfl), fun w on => wayInner left ab bc ca on⟩

omit [Field α] [LinearOrder α] [IsStrictOrderedRing α] in
theorem levelOther (level : Level (h :: r)) (new : h ∉ r) (mem : p ∈ r) : h.2 ≠ p.2 := fun same =>
  new (level h (by simp) p (by simp [mem]) same ▸ mem)

section Off
variable (off : Off r h) (level : Level (h :: r))
include off

theorem offNew : h ∉ r := fun mem => offOther off mem rfl

include level

theorem freeVertex (filled : Filled r) (long : 3 ≤ r.length) (winds : turning r h ≠ 0) : ∃ t ∈ r, Free r h t := by
  have woven := filled.toWoven
  have new := offNew off
  obtain ⟨n, size⟩ := Nat.exists_eq_add_of_le' long
  obtain ⟨ts, clipped⟩ := filledClipped (f := id) size (by simpa using filled)
  have filled' : Filled (r.map id) := by simpa using filled
  have sum := clippedTurning clipped h
  rw [List.map_id] at sum
  obtain ⟨t, mem, some⟩ : ∃ t ∈ ts, turning [t.1, t.2.1, t.2.2] h ≠ 0 := by
    by_contra none
    push Not at none
    exact winds (sum.trans (List.sum_eq_zero (List.forall_mem_map.mpr none)))
  obtain ⟨a, b, c⟩ := t
  obtain ⟨first, second, third⟩ := clippedMembers clipped _ mem
  have apart : ∀ p ∈ r.map id, h.2 ≠ p.2 := List.forall_mem_map.mpr fun p => levelOther level new
  have once := clippedOnce clipped apart mem
  have inside := once.inside (once.either.resolve_left some)
  obtain ⟨p, vertex, way⟩ := vertexWay (clippedLeft clipped _ mem) inside
    ⟨fun same => new (same ▸ first), fun same => new (same ▸ second), fun same => new (same ▸ third)⟩
  have here : p ∈ r := by rcases vertex with rfl | rfl | rfl <;> assumption
  refine ⟨p, here, fun e edge => Or.inr (Or.inr fun w on onward => ?_)⟩
  rcases way w on with rfl | rfl | inner
  · exact absurd onward (off e edge)
  · exact ⟨Or.inr rfl, besideEnd woven here (Or.inl edge) onward⟩
  · have apart := clippedOff clipped filled' mem inner
    rw [List.map_id] at apart
    exact absurd onward (apart e edge)

theorem seenAngle (woven : Woven r) (free : Free r h t) (beside : Beside r t p) : angle t h ≠ angle t p := by
  have new := offNew off
  obtain ⟨here, there⟩ := besideInside beside
  exact angleApart (levelOther level new here) (besideOff woven beside) (fun same => new (same ▸ there))
    (freeApart free (fun edge => new (besideInside edge).1) beside)

theorem seenCorner (woven : Woven r) (mem : t ∈ r) (free : Free r h t) (winds : turning r h ≠ depth r t) :
    turning r h = depth r t + 1 ∧
      ∃ u ∈ triples r, u.2.1 = t ∧ Within (angle t u.2.2) (angle t h) (angle t u.1) := by
  have new := offNew off
  have differ : h ≠ t := fun same => new (same ▸ mem)
  have along := sweep differ woven.proper (fun a one b two => level a (by grind) b (by grind)) free true
  rw [windingTurning new] at along
  have held : ∃ u ∈ triples r, Holds t (toward t h !true) u := by
    by_contra none
    rw [windingOpen woven (by simpa using none)] at along
    exact winds along.symm
  obtain ⟨u, corner, holds⟩ := held
  rw [windingHeld woven corner holds] at along
  obtain ⟨rfl, inside⟩ := holds
  obtain ⟨before, after⟩ := cornerBeside corner
  exact ⟨along.symm, u, corner, rfl, inWithin inside (seenAngle off level woven free after)
    (seenAngle off level woven free before)⟩

theorem filledTurning (filled : Filled r) (long : 3 ≤ r.length) : turning r h = 0 ∨ turning r h = 1 := by
  by_cases zero : turning r h = 0
  · exact Or.inl zero
  · obtain ⟨t, mem, free⟩ := freeVertex off level filled long zero
    have one := (seenCorner off level filled.toWoven mem free (by rwa [filled.depth t mem])).1
    rw [filled.depth t mem] at one
    exact Or.inr one

end Off

/-- A vertex is seen if nothing comes between but edges that end there. -/
theorem visibleFree (woven : Woven r) (off : Off r h)
    (visible : ∀ e ∈ edges r, e.1 ≠ t → e.2 ≠ t → ∀ w ∈ segment α h t, w ∉ segment α e.1 e.2) : Free r h t := by
  have hidden {q : α × α} (beside : Beside r t q) : q ∉ segment α t h := by
    intro on
    rw [segment_symm] at on
    have other := besideProper woven beside
    rcases beside with edge | edge
    · obtain ⟨u, corner, rfl, rfl⟩ := edgeBefore edge
      exact visible _ (triplesInside corner).2 other (woven.ends u corner).symm _ on (left_mem_segment ..)
    · obtain ⟨u, corner, rfl, rfl⟩ := edgeAfter edge
      exact visible _ (triplesInside corner).1 (woven.ends u corner) other _ on (right_mem_segment ..)
  have only {q w : α × α} (beside : Beside r t q) (on : w ∈ segment α h t) (onward : w ∈ segment α t q) : w = t := by
    by_contra other
    rcases alongEither other (segment_symm α h t ▸ on) onward with back | past
    · rcases beside with edge | edge
      · exact off _ edge back
      · exact off _ edge (segment_symm α t q ▸ back)
    · exact hidden beside past
  intro e edge
  refine Or.inr (Or.inr fun w on onward => ?_)
  by_cases first : e.1 = t
  · have here := only (Or.inl (first ▸ edge)) on (first ▸ onward)
    exact ⟨Or.inr here, Or.inl (here.trans first.symm)⟩
  by_cases second : e.2 = t
  · have here := only (Or.inr (second ▸ edge)) on (second ▸ segment_symm α e.1 e.2 ▸ onward)
    exact ⟨Or.inr here, Or.inr (here.trans second.symm)⟩
  exact absurd onward (visible e edge first second w on)

/-- Whether a corner opens toward a point: on the left of both of its sides, or of one if it does not bulge. -/
def Opens (a t b h : α × α) : Prop :=
  if 0 < turn a t b then 0 < turn a t h ∧ 0 < turn t b h else 0 < turn a t h ∨ 0 < turn t b h

theorem opensWithin (opens : Opens a t b h) (offA : a.2 ≠ t.2) (offB : b.2 ≠ t.2) (offH : h.2 ≠ t.2)
    (first : angle t h ≠ angle t b) (last : angle t h ≠ angle t a) : Within (angle t b) (angle t h) (angle t a) := by
  unfold Opens at opens
  split at opens
  · exact (withinBulge ‹_› offA offB offH).mpr opens
  · rename_i reflex
    refine (withinOr first last).resolve_right fun around => reflex ?_
    rcases opens with left | left
    · exact ((withinBulge left offA offH offB).mp around.2).1
    · rw [← turnRotate] at left
      rw [turnRotate]
      exact ((withinBulge left offH offB offA).mp around.1).2

end SceneStream.Geometry.Plane
