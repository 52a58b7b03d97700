import SceneStream.Proofs.Geometry.Plane.Ear

/-! Ears away from an edge. A filled ring has one for each of its edges, by a cut along a diagonal, so that a part has
an ear at neither end of it. -/
namespace SceneStream.Geometry.Plane

theorem tipCut {β : Type} {r : List β} {a b c : β} {k : List β} (turned : (a :: b :: c :: k).IsRotated r) (long : k ≠ []) :
    ∃ d d', Cut r [a, b, c] (c :: k ++ [a]) a c b d b d' ∧ ((edges r).Nodup → ¬(d = a ∧ d' = c)) := by
  obtain ⟨d, k, rfl⟩ := List.exists_cons_of_ne_nil long
  obtain ⟨k', d', last⟩ := (List.eq_nil_or_concat (d :: k)).resolve_left long
  rw [List.concat_eq_append] at last
  have cut : Cut r ([a, b] ++ [c]) (c :: d :: k ++ [a]) a c b d b d' := cutAt turned (List.nil_append [b]).symm last
  refine ⟨d, d', cut, ?_⟩
  rintro once ⟨rfl, rfl⟩
  have nodup := (List.nodup_append.mp (cut.edges.nodup_iff.mp once)).2.1
  have path : d' :: d :: k ++ [d] = d' :: (k' ++ d' :: [d]) := by simp [last]
  rw [List.cons_append, List.cons_append, stepsCons] at nodup
  refine (List.nodup_cons.mp nodup).1 ?_
  rw [← List.cons_append, last, List.append_assoc, List.singleton_append, stepsAppend]
  exact List.mem_append_right _ (List.mem_cons_self ..)

variable {α : Type} [Field α] [LinearOrder α] [IsStrictOrderedRing α] {r : List (α × α)}

theorem earDiagonal (woven : Woven r) {a b c : α × α} (ear : Ear r (a, b, c)) {k : List (α × α)}
    (turned : (a :: b :: c :: k).IsRotated r) (long : k ≠ []) :
    ∃ d d', Cut r [a, b, c] (c :: k ++ [a]) a c b d b d' ∧ Diagonal r a c b d b d' := by
  obtain ⟨d, d', cut, once⟩ := tipCut turned long
  obtain ⟨first, last⟩ := cutEnds cut
  have back (same : d = a) : d' = c := by
    by_contra other
    exact woven.sectors _ first c (Or.inr (same ▸ (triplesInside last).2)) (earFirst woven ear first other)
  have on (same : d' = c) : d = a := by
    by_contra other
    exact woven.sectors _ last a (Or.inl (same ▸ (triplesInside first).1)) (earLast woven ear last other)
  have both : d' ≠ c ∧ d ≠ a :=
    ⟨fun same => once woven.once ⟨on same, same⟩, fun same => once woven.once ⟨same, back same⟩⟩
  exact ⟨d, d', cut, woven.ends _ ear.mem, earFree woven ear, earFirst woven ear first both.1,
    earLast woven ear last both.2⟩

section Lift
variable {left right : List (α × α)} {b z c d c' d' : α × α} (cut : Cut r left right b z c d c' d')
include cut

theorem earLifts (filled : Filled r) (diagonal : Diagonal r b z c d c' d') {t} (ear : Ear right t)
    (inner : t ∈ turns right) : Ear r t := by
  have woven := filled.toWoven
  have first := cutFilled cut filled diagonal
  have second := cutFilled (cutTurned cut) filled (diagonalTurned diagonal)
  have mem : t ∈ triples r := cut.corners.mem_iff.mpr (by simp [inner])
  refine ⟨mem, ear.bulges, fun p here inside => ?_⟩
  by_cases kept : p ∈ right
  · exact ear.clear p kept inside
  exfalso
  have lost : p ∈ left := (List.mem_append.mp (cut.inside here)).resolve_right kept
  obtain ⟨before, after⟩ := cornerBeside ear.mem
  have away {q : α × α} (mem : q ∈ right) : p ≠ q := fun same => kept (same ▸ mem)
  have sides := away (besideInside before).2
  have tip := away (besideInside before).1
  obtain ⟨inC, inA⟩ := insideStrict woven mem ear.bulges here inside ⟨sides, tip, away (besideInside after).2⟩
  have free : Free right p t.2.1 := by
    refine freeToward second.toWoven ear.mem ear.bulges inC inA inside.2.2 (fun q mem within => ?_) fun e edge on => ?_
    · rcases ear.clear q mem within with rfl | rfl | rfl
      · exact Or.inr (by simpa using inside.2.2)
      · exact Or.inl rfl
      · exact Or.inr (by simpa using inside.2.2)
    · rcases cutEdges (cutTurned cut) edge with rfl | old
      · obtain ⟨u, corner, rfl⟩ := cornerAt here
        rcases diagonal.free _ (triplesInside corner).2 with same | same | apart
        · exact Or.inl (congrArg Prod.fst same)
        · exact Or.inr (congrArg Prod.fst same)
        · exact (apart _ on (left_mem_segment ..)).1
      · exact besideEnd woven here (Or.inl old) on
  have middle := (besideInside before).1
  have known : p :: t.2.1 :: right ⊆ r :=
    List.cons_subset.mpr ⟨here, List.cons_subset.mpr ⟨cut.rightInside middle, cut.rightInside⟩⟩
  have level : Level (p :: t.2.1 :: right) := fun a one b two => woven.level a (known one) b (known two)
  have off : p.2 ≠ t.2.1.2 := fun same => tip (level p (by simp) _ (by simp) same)
  have inward := (withinBulge ear.bulges (besideOff second.toWoven before) (besideOff second.toWoven after) off).mpr
    ⟨inC, inA⟩
  have along := sweep tip second.proper level free false
  have none : ∀ u ∈ triples right, ∀ g, ¬Holds p g u := fun u corner g holds =>
    kept (holds.1 ▸ (besideInside (cornerBeside corner).1).1)
  obtain ⟨u, corner, rfl⟩ := cornerAt lost
  have twice := windingMost filled here (toward u.2.1 u.2.2 true)
  rw [cutWinding cut diagonal.differ, leftHeld first.toWoven (triplesInside corner).2, first.depth _ lost,
    windingOpen second.toWoven fun u corner => none u corner _] at twice
  rw [windingHeld second.toWoven ear.mem ⟨rfl, withinIn inward⟩, second.depth _ middle,
    windingOpen second.toWoven fun u corner => none u corner _] at along
  omega

theorem earBeyond (filled : Filled r) (diagonal : Diagonal r b z c d c' d')
    (away : ∀ e ∈ edges right, ∃ t, Ear right t ∧ t.2 ≠ e ∧ (t.1, t.2.1) ≠ e) {e} (edge : e ∈ steps left) :
    ∃ t, Ear r t ∧ t.2 ≠ e ∧ (t.1, t.2.1) ≠ e := by
  obtain ⟨t, ear, after, before⟩ := away (b, z) (cut.rightEdges.mem_iff.mpr (List.mem_cons_self ..))
  have inner : t ∈ turns right := by
    rcases List.mem_cons.mp (cut.rightCorners.mem_iff.mp ear.mem) with rfl | rest
    · exact absurd rfl before
    · exact (List.mem_cons.mp rest).resolve_left fun same => after (same ▸ rfl)
  have apart := (List.nodup_append.mp (cut.edges.nodup_iff.mp filled.once)).2.2
  have other {f} (mem : f ∈ edges right) (new : f ≠ (b, z)) : f ≠ e := fun same =>
    apart e edge f ((List.mem_cons.mp (cut.rightEdges.mem_iff.mp mem)).resolve_left new) same.symm
  have sides := triplesInside ear.mem
  exact ⟨t, earLifts cut filled diagonal ear inner, other sides.2 after, other sides.1 before⟩

end Lift

section Turned
variable {s : List (α × α)} (turned : s.IsRotated r)
include turned

omit [IsStrictOrderedRing α] in
theorem wovenTurned (woven : Woven r) : Woven s := by
  have edges := edgesTurned turned
  have corners := triplesTurned turned
  refine ⟨fun p first q second => ?_, fun e mem => ?_, ?_, fun e mem f mem' => ?_, fun t mem => ?_, fun t mem p beside => ?_⟩
  · exact woven.level p (turned.mem_iff.mp first) q (turned.mem_iff.mp second)
  · exact woven.proper e (edges.mem_iff.mp mem)
  · exact edges.nodup_iff.mpr woven.once
  · exact woven.free e (edges.mem_iff.mp mem) f (edges.mem_iff.mp mem')
  · exact woven.ends t (corners.mem_iff.mp mem)
  · exact woven.sectors t (corners.mem_iff.mp mem) p (beside.imp edges.mem_iff.mp edges.mem_iff.mp)

omit [IsStrictOrderedRing α] in
theorem filledTurned (filled : Filled r) : Filled s := by
  refine ⟨wovenTurned turned filled.toWoven, fun z mem => ?_⟩
  rw [← filled.depth z (turned.mem_iff.mp mem), depth, depth, ((edgesTurned turned).map _).sum_eq,
    ((triplesTurned turned).map _).sum_eq]

omit [IsStrictOrderedRing α] in
theorem earTurned {t} (ear : Ear s t) : Ear r t :=
  ⟨(triplesTurned turned).mem_iff.mp ear.mem, ear.bulges, fun p mem => ear.clear p (turned.mem_iff.mpr mem)⟩

end Turned

theorem triangleLeft {a b c : α × α} (filled : Filled [a, b, c]) : 0 < turn a b c := by
  obtain ⟨z, mem, top⟩ := topVertex (List.cons_ne_nil a [b, c])
  obtain ⟨t, corner, rfl⟩ := cornerAt mem
  have bulges := topBulges filled corner top
  have either : t = (c, a, b) ∨ t = (a, b, c) ∨ t = (b, c, a) := by simpa [triples, Ring.startAt] using corner
  rcases either with rfl | rfl | rfl
  · exact turnRotate c a b ▸ bulges
  · exact bulges
  · exact turnRotate a b c ▸ bulges

theorem triangleAway {a b c : α × α} (filled : Filled [a, b, c]) :
    ∀ e ∈ edges [a, b, c], ∃ t, Ear [a, b, c] t ∧ t.2 ≠ e ∧ (t.1, t.2.1) ≠ e := by
  have left := triangleLeft filled
  have sides : edges [a, b, c] = [(a, b), (b, c), (c, a)] := rfl
  have proper := filled.proper
  rw [sides] at proper ⊢
  simp only [List.forall_mem_cons, List.not_mem_nil, false_imp_iff, implies_true, and_true] at proper ⊢
  obtain ⟨ab, bc, ca⟩ := proper
  refine ⟨⟨(b, c, a), ⟨?_, turnRotate a b c ▸ left, ?_⟩, ?_, ?_⟩, ⟨(c, a, b), ⟨?_, turnRotate c a b ▸ left, ?_⟩, ?_, ?_⟩,
    (a, b, c), ⟨?_, left, ?_⟩, ?_, ?_⟩ <;> simp_all [triples, Ring.startAt]

/-- Away from every edge there is an ear. -/
theorem earAway (filled : Filled r) (long : 3 ≤ r.length) :
    ∀ e ∈ edges r, ∃ t, Ear r t ∧ t.2 ≠ e ∧ (t.1, t.2.1) ≠ e := by
  induction size : r.length using Nat.strong_induction_on generalizing r with
  | _ n ih =>
    subst size
    intro e edge
    obtain ⟨z, mem, top⟩ := topVertex (List.ne_nil_of_length_pos (by omega : 0 < r.length))
    obtain ⟨t, corner, rfl⟩ := cornerAt mem
    have left := topBulges filled corner top
    by_cases clear : ∀ p ∈ r, InTriangle t.1 t.2.1 t.2.2 p → p = t.1 ∨ p = t.2.1 ∨ p = t.2.2
    · have ear : Ear r t := ⟨corner, left, clear⟩
      by_cases away : t.2 ≠ e ∧ (t.1, t.2.1) ≠ e
      · exact ⟨t, ear, away⟩
      obtain ⟨a, b, c⟩ := t
      obtain ⟨k, turned⟩ := cornerBegun long corner
      have either : e = (b, c) ∨ e = (a, b) := by grind
      by_cases short : k = []
      · subst short
        obtain ⟨t, ear, other⟩ := triangleAway (filledTurned turned filled) e ((edgesTurned turned).mem_iff.mpr edge)
        exact ⟨t, earTurned turned ear, other⟩
      · obtain ⟨d, d', cut, diagonal⟩ := earDiagonal filled.toWoven ear turned short
        have size := turned.perm.length_eq
        simp only [List.length_cons] at size
        have more := List.length_pos_iff.mpr short
        refine earBeyond cut filled diagonal
          (ih _ ?_ (cutFilled (cutTurned cut) filled (diagonalTurned diagonal)) ?_ rfl) ?_
        · simp
          omega
        · simp
          omega
        · rcases either with rfl | rfl <;> simp [steps]
    · push Not at clear
      obtain ⟨p, here, inside, other⟩ := clear
      obtain ⟨u, last, -, -, -, diagonal⟩ := spokeFrom filled corner left here inside other
      obtain ⟨left, right, cut, size, first, second⟩ := cutBetween long corner last
        (fun same => diagonal.differ (same ▸ rfl)) fun beside => filled.sectors _ corner _ beside diagonal.first
      have turned := cutTurned cut
      have across := diagonalTurned diagonal
      rcases List.mem_append.mp (cut.edges.mem_iff.mp edge) with mem | mem
      · exact earBeyond cut filled diagonal (ih _ (by omega) (cutFilled turned filled across) second rfl) mem
      · exact earBeyond turned filled across (ih _ (by omega) (cutFilled cut filled diagonal) first rfl) mem

theorem earExists (filled : Filled r) (long : 3 ≤ r.length) : ∃ t, Ear r t := by
  obtain ⟨a, l, rfl⟩ := List.exists_cons_of_length_pos (by omega : 0 < r.length)
  obtain ⟨e, edge⟩ := List.exists_mem_of_ne_nil (edges (a :: l)) (by cases l <;> simp [edges])
  obtain ⟨t, ear, -⟩ := earAway filled long e edge
  exact ⟨t, ear⟩

end SceneStream.Geometry.Plane
