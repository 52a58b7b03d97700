import SceneStream.Proofs.Geometry.Plane.Woven

/-! A diagonal cuts a ring into two, and each of the corners that it ends in into two. -/
namespace SceneStream.Geometry.Plane

section
variable {β : Type}

/-- What two parts of a ring have of it that are cut from each other between `b` and `z`. The ring comes to these from
`d'` and from `c'`, and goes on to `c` and to `d`. -/
structure Cut (r left right : List β) (b z c d c' d' : β) : Prop where
  inside : r ⊆ left ++ right
  leftInside : left ⊆ r
  rightInside : right ⊆ r
  edges : (edges r).Perm (steps left ++ steps right)
  leftEdges : (Geometry.edges left).Perm ((z, b) :: steps left)
  rightEdges : (Geometry.edges right).Perm ((b, z) :: steps right)
  corners : (triples r).Perm ((d', b, c) :: (c', z, d) :: (turns left ++ turns right))
  leftCorners : (triples left).Perm ((z, b, c) :: (c', z, b) :: turns left)
  rightCorners : (triples right).Perm ((b, z, d) :: (d', b, z) :: turns right)

theorem cutTurned {r left right : List β} {b z c d c' d' : β} (cut : Cut r left right b z c d c' d') :
    Cut r right left z b d c d' c' where
  inside := fun _ mem => (List.mem_append.mp (cut.inside mem)).elim (List.mem_append_right _) (List.mem_append_left _)
  leftInside := cut.rightInside
  rightInside := cut.leftInside
  edges := cut.edges.trans List.perm_append_comm
  leftEdges := cut.rightEdges
  rightEdges := cut.leftEdges
  corners := cut.corners.trans ((List.Perm.swap ..).trans ((List.perm_append_comm.cons _).cons _))
  leftCorners := cut.rightCorners
  rightCorners := cut.leftCorners

theorem pathClosed {x y a a' : β} {m m' : List β} (ends : a :: m = m' ++ [a']) :
    (edges (x :: a :: m ++ [y])).Perm ((y, x) :: steps (x :: a :: m ++ [y])) ∧
      (triples (x :: a :: m ++ [y])).Perm ((y, x, a) :: (a', y, x) :: turns (x :: a :: m ++ [y])) := by
  have steps : edges (x :: a :: m ++ [y]) = steps (x :: a :: m ++ [y]) ++ [(y, x)] := by
    have path : x :: (a :: m ++ [y]) ++ [x] = (x :: a :: m) ++ y :: [x] := by simp
    rw [List.cons_append, edgesCons, path, stepsAppend]
    rfl
  have inner : turns (x :: a :: m ++ [y, x]) = turns (x :: a :: m ++ [y]) ++ [(a', y, x)] := by
    have path : x :: a :: m ++ [y, x] = (x :: m') ++ a' :: y :: [x] := by simp [ends]
    have short : x :: a :: m ++ [y] = (x :: m') ++ [a', y] := by simp [ends]
    rw [path, turnsAppend, short]
    rfl
  rw [steps, triplesTurns, inner]
  exact ⟨List.perm_append_singleton .., (List.perm_append_singleton ..).cons _⟩

theorem cutAt {r : List β} {b z c d c' d' : β} {v w v₁ w₁ : List β}
    (turned : (b :: c :: v ++ z :: d :: w).IsRotated r) (last : c :: v = v₁ ++ [c']) (last' : d :: w = w₁ ++ [d']) :
    Cut r (b :: c :: v ++ [z]) (z :: d :: w ++ [b]) b z c d c' d' := by
  have members : ∀ x, x ∈ r ↔ x ∈ b :: c :: v ++ z :: d :: w := fun x => turned.mem_iff.symm
  obtain ⟨n, rotated⟩ := turned
  refine ⟨?_, ?_, ?_, ?_, (pathClosed last).1, (pathClosed last').1, ?_, (pathClosed last).2, (pathClosed last').2⟩
  · intro x mem
    rw [members] at mem
    grind
  · intro x mem
    rw [members]
    grind
  · intro x mem
    rw [members]
    grind
  · have path : b :: (c :: v ++ z :: d :: w) ++ [b] = (b :: c :: v) ++ z :: (d :: w ++ [b]) := by simp
    rw [← rotated, edgesRotate]
    refine (List.rotate_perm ..).trans ?_
    rw [List.cons_append, edgesCons, path, stepsAppend]
    rfl
  · have path : b :: c :: v ++ z :: d :: w = b :: c :: (v ++ z :: w₁) ++ [d'] := by simp [last']
    have around : b :: c :: (v ++ z :: w₁) ++ [d', b] = (b :: v₁) ++ c' :: z :: (d :: w ++ [b]) := by
      have parts : b :: c :: (v ++ z :: w₁) ++ [d', b] = b :: ((c :: v) ++ z :: ((w₁ ++ [d']) ++ [b])) := by simp
      rw [parts, last, ← last']
      simp
    have short : b :: c :: v ++ [z] = (b :: v₁) ++ [c', z] := by simp [last]
    rw [← rotated, triplesRotate]
    refine (List.rotate_perm ..).trans ?_
    rw [path, triplesTurns, around, turnsAppend, short]
    exact List.perm_middle.cons _

theorem turnsSplit {l : List β} {t : β × β × β} (mem : t ∈ turns l) :
    ∃ before after, l = before ++ t.1 :: t.2.1 :: t.2.2 :: after := by
  induction l with
  | nil => cases mem
  | cons a l ih =>
    match l, mem with
    | b :: c :: l, mem =>
      rcases List.mem_cons.mp mem with rfl | later
      · exact ⟨[], l, rfl⟩
      · obtain ⟨before, after, split⟩ := ih later
        exact ⟨a :: before, after, congrArg (a :: ·) split⟩

theorem cutBetween {r : List β} {t u : β × β × β} (long : 3 ≤ r.length) (first : t ∈ triples r)
    (second : u ∈ triples r) (differ : u ≠ t) (apart : ¬Beside r t.2.1 u.2.1) :
    ∃ left right, Cut r left right t.2.1 u.2.1 t.2.2 u.2.2 u.1 t.1 ∧
      left.length + right.length = r.length + 2 ∧ 3 ≤ left.length ∧ 3 ≤ right.length := by
  obtain ⟨i, k, begun⟩ := tripleBegun long first
  have other : u ∈ triples (r.rotate i) := triplesRotate r i ▸ List.mem_rotate.mpr second
  rw [begun, triplesTurns] at other
  obtain ⟨before, after, split⟩ := turnsSplit ((List.mem_cons.mp other).resolve_left differ)
  rcases before with _ | ⟨x, before⟩
  · obtain ⟨-, same, -⟩ : t.2.1 = u.1 ∧ t.2.2 = u.2.1 ∧ _ := by simpa using split
    exact absurd (same ▸ (cornerBeside first).2) apart
  obtain ⟨rfl, split⟩ : t.2.1 = x ∧ t.2.2 :: (k ++ [t.1, t.2.1]) = before ++ u.1 :: u.2.1 :: u.2.2 :: after := by
    simpa using split
  rcases List.eq_nil_or_concat after with rfl | ⟨after, y, rfl⟩
  · have ends : (t.2.2 :: k) ++ [t.1, t.2.1] = (before ++ [u.1]) ++ [u.2.1, u.2.2] := by simpa using split
    obtain ⟨-, same⟩ := List.append_inj' ends rfl
    have same : t.1 = u.2.1 := (List.cons.inj same).1
    exact absurd (same ▸ (cornerBeside first).1) apart
  have ends : (t.2.2 :: k ++ [t.1]) ++ [t.2.1] = (before ++ u.1 :: u.2.1 :: u.2.2 :: after) ++ [y] := by
    simpa using split
  obtain ⟨split, -⟩ := List.append_inj' ends rfl
  obtain ⟨c, v, first⟩ := List.exists_cons_of_ne_nil (List.concat_ne_nil u.1 before)
  obtain ⟨w, d, last⟩ := (List.eq_nil_or_concat (u.2.2 :: after)).resolve_left (List.cons_ne_nil _ _)
  rw [List.concat_eq_append] at last
  have whole : t.2.2 :: (k ++ [t.1]) = c :: (v ++ u.2.1 :: u.2.2 :: after) := by
    rw [← List.cons_append, ← List.cons_append, ← first, split]
    simp
  obtain ⟨rfl, -⟩ := List.cons.inj whole
  have same : t.1 = d := by
    rw [last] at whole
    have tails : (t.2.2 :: k) ++ [t.1] = (t.2.2 :: v ++ u.2.1 :: w) ++ [d] := by simpa using whole
    exact (List.cons.inj (List.append_inj' tails rfl).2).1
  have turned : t.2.1 :: t.2.2 :: v ++ u.2.1 :: u.2.2 :: after = r.rotate i := by
    rw [begun]
    simpa using whole.symm
  refine ⟨_, _, cutAt (turned ▸ List.IsRotated.forall r i) first.symm (same ▸ last), ?_, by simp, by simp⟩
  have size := congrArg List.length turned
  rw [List.length_rotate] at size
  simp only [List.length_append, List.length_cons, List.length_nil] at size ⊢
  omega

section
variable {r left right : List β} {b z c d c' d' : β} (cut : Cut r left right b z c d c' d')
include cut

theorem cutSum {γ : Type} [AddCommGroup γ] (f : β × β → γ) (turned : f (z, b) = -f (b, z)) :
    ((edges r).map f).sum = ((edges left).map f).sum + ((edges right).map f).sum := by
  -- What is turned with an edge is for the ring what it is for both parts.
  rw [(cut.edges.map f).sum_eq, (cut.leftEdges.map f).sum_eq, (cut.rightEdges.map f).sum_eq, List.map_append,
    List.sum_append, List.map_cons, List.sum_cons, List.map_cons, List.sum_cons, turned]
  abel

theorem cutEdges {e} (mem : e ∈ edges left) : e = (z, b) ∨ e ∈ edges r :=
  (List.mem_cons.mp (cut.leftEdges.mem_iff.mp mem)).imp_right fun inner =>
    cut.edges.mem_iff.mpr (List.mem_append_left _ inner)

theorem cutCorners {t} (mem : t ∈ triples left) : t = (z, b, c) ∨ t = (c', z, b) ∨ t ∈ turns left ∧ t ∈ triples r := by
  rcases List.mem_cons.mp (cut.leftCorners.mem_iff.mp mem) with first | rest
  · exact Or.inl first
  · rcases List.mem_cons.mp rest with last | inner
    · exact Or.inr (Or.inl last)
    · exact Or.inr (Or.inr ⟨inner, cut.corners.mem_iff.mpr (by grind)⟩)

theorem cutEnds : (d', b, c) ∈ triples r ∧ (c', z, d) ∈ triples r :=
  ⟨cut.corners.mem_iff.mpr (by simp), cut.corners.mem_iff.mpr (by simp)⟩

theorem cutBeside {x p : β} (beside : Beside left x p) : Beside r x p ∨ x = b ∧ p = z ∨ x = z ∧ p = b := by
  rcases beside with edge | edge <;> rcases cutEdges cut edge with same | old
  · cases same
    exact Or.inr (Or.inr ⟨rfl, rfl⟩)
  · exact Or.inl (Or.inl old)
  · cases same
    exact Or.inr (Or.inl ⟨rfl, rfl⟩)
  · exact Or.inl (Or.inr old)

end
end

section Order
variable {α : Type} [LinearOrder α] {c s t a : Bool ×ₗ α}

theorem withinBefore (inner : Within c s t) (outer : Within c t a) : Within c s a := by
  unfold Within at *
  grind

theorem withinAfter (inner : Within s t a) (outer : Within c s a) : Within c t a := by
  unfold Within at *
  grind

theorem withinEnd : ¬Within c a a := by
  unfold Within
  grind

theorem withinBegin : ¬Within a a c := by
  unfold Within
  grind

theorem withinIn {g : Germ α} (inner : Within c g.angle a) : g.In c a := by
  unfold Within at inner
  unfold Germ.In Germ.Past
  grind

theorem markWithin (inner : Within c t a) (differ : c ≠ a) : mark (a < c) = mark (t < c) + mark (a < t) := by
  unfold Within at inner
  unfold mark
  grind

end Order

section Diagonal
variable {α : Type} [Field α] [LinearOrder α]

/-- A segment between two corners that leaves each of them inward and meets the ring nowhere else. -/
structure Diagonal (r : List (α × α)) (b z c d c' d' : α × α) : Prop where
  differ : b ≠ z
  free : Free r b z
  first : Within (angle b c) (angle b z) (angle b d')
  last : Within (angle z d) (angle z b) (angle z c')

theorem diagonalTurned {r : List (α × α)} {b z c d c' d' : α × α} (diagonal : Diagonal r b z c d c' d') :
    Diagonal r z b d c d' c' :=
  ⟨diagonal.differ.symm, freeTurned diagonal.free, diagonal.last, diagonal.first⟩

theorem diagonalNew {r left right : List (α × α)} {b z c d c' d' : α × α} (cut : Cut r left right b z c d c' d')
    (woven : Woven r) (diagonal : Diagonal r b z c d c' d') : ¬Beside r b z := fun beside =>
  woven.sectors _ (cutEnds cut).1 z beside diagonal.first

end Diagonal

section Cut
variable {α : Type} [Field α] [LinearOrder α] [IsStrictOrderedRing α]

variable {r left right : List (α × α)} {b z c d c' d' : α × α}

section
variable (cut : Cut r left right b z c d c' d')
include cut

theorem cutWoven (woven : Woven r) (diagonal : Diagonal r b z c d c' d') : Woven left where
  level := fun p first q second => woven.level p (cut.leftInside first) q (cut.leftInside second)
  proper := by
    intro e mem
    rcases cutEdges cut mem with rfl | old
    · exact diagonal.differ.symm
    · exact woven.proper e old
  once := by
    refine cut.leftEdges.nodup_iff.mpr (List.nodup_cons.mpr ⟨fun old => ?_, ?_⟩)
    · exact diagonalNew cut woven diagonal (Or.inr (cut.edges.mem_iff.mpr (List.mem_append_left _ old)))
    · exact (List.nodup_append.mp (cut.edges.nodup_iff.mp woven.once)).1
  free := by
    intro e mem f mem'
    rcases cutEdges cut mem with rfl | old <;> rcases cutEdges cut mem' with rfl | old'
    · exact Or.inl rfl
    · exact freeTurned diagonal.free f old'
    · rcases diagonal.free e old with same | same | apart
      · exact Or.inr (Or.inl (by rw [same]))
      · exact Or.inl (by rw [same])
      · exact Or.inr (Or.inr (apartTurned (apartSymm apart)))
    · exact woven.free e old f old'
  ends := by
    intro t mem
    rcases cutCorners cut mem with rfl | rfl | old
    · exact fun same : z = c => diagonalNew cut woven diagonal (same ▸ (cornerBeside (cutEnds cut).1).2)
    · exact fun same : c' = b => diagonalNew cut woven diagonal (same ▸ (cornerBeside (cutEnds cut).2).1).symm
    · exact woven.ends t old.2
  sectors := by
    intro t mem p beside within
    have first := (cutEnds cut).1
    have last := (cutEnds cut).2
    have both := cutBeside cut beside
    rcases cutCorners cut mem with rfl | rfl | ⟨inner, old⟩
    · rcases both with known | ⟨-, rfl⟩ | ⟨same, -⟩
      · exact woven.sectors _ first p known (withinBefore within diagonal.first)
      · exact withinEnd within
      · exact diagonal.differ same
    · rcases both with known | ⟨same, -⟩ | ⟨-, rfl⟩
      · exact woven.sectors _ last p known (withinAfter within diagonal.last)
      · exact diagonal.differ same.symm
      · exact withinBegin within
    · obtain ⟨u, x, v⟩ := t
      have unique : (triples r).Nodup := List.Nodup.of_map _ (triplesAfter r ▸ woven.once)
      have apart := cut.corners.nodup_iff.mp unique
      have mine : Holds x (toward x p true) (u, x, v) := ⟨rfl, withinIn within⟩
      rcases both with known | ⟨rfl, rfl⟩ | ⟨rfl, rfl⟩
      · exact woven.sectors _ old p known within
      · have same := heldOnce woven old first mine ⟨rfl, withinIn diagonal.first⟩
        grind
      · have same := heldOnce woven old last mine ⟨rfl, withinIn diagonal.last⟩
        grind

theorem cutWinding (differ : b ≠ z) (x : α × α) (g : Germ α) :
    winding r x g = winding left x g + winding right x g :=
  cutSum cut (fun e => passes x g e.1 e.2) (passesReversed g differ)

theorem cutDepth (woven : Woven r) (diagonal : Diagonal r b z c d c' d') : depth r b = depth left b + depth right b := by
  let aloof (e : (α × α) × (α × α)) : ℤ := if e.1 = b ∨ e.2 = b then 0 else crossing b e.1 e.2
  let wraps (t : (α × α) × (α × α) × (α × α)) := mark (t.2.1 = b ∧ angle b t.1 < angle b t.2.2)
  have whole := (cut.edges.map aloof).sum_eq
  have first := (cut.leftEdges.map aloof).sum_eq
  have second := (cut.rightEdges.map aloof).sum_eq
  have corners := (cut.corners.map wraps).sum_eq
  have leftCorners := (cut.leftCorners.map wraps).sum_eq
  have rightCorners := (cut.rightCorners.map wraps).sum_eq
  have sector := markWithin diagonal.first (cornerAngles woven (cutEnds cut).1)
  have here (p q : α × α) : wraps (p, b, q) = mark (angle b p < angle b q) := markSame (and_iff_right rfl)
  have there (p q : α × α) : wraps (p, z, q) = 0 := markFalse fun h => diagonal.differ h.1.symm
  have inward : aloof (z, b) = 0 := if_pos (Or.inr rfl)
  have outward : aloof (b, z) = 0 := if_pos (Or.inl rfl)
  simp only [List.map_cons, List.map_append, List.sum_cons, List.sum_append, here, there, inward, outward] at *
  unfold depth
  change (List.map aloof _).sum - (List.map wraps _).sum = (List.map aloof _).sum - (List.map wraps _).sum +
    ((List.map aloof _).sum - (List.map wraps _).sum)
  linarith

theorem cutFilled (filled : Filled r) (diagonal : Diagonal r b z c d c' d') : Filled left := by
  have first := cutWoven cut filled.toWoven diagonal
  have second := cutWoven (cutTurned cut) filled.toWoven (diagonalTurned diagonal)
  have ends := cornerBeside (cut.leftCorners.mem_iff.mpr (List.mem_cons_self ..))
  have ends' := cornerBeside (cut.rightCorners.mem_iff.mpr (by simp : (d', b, z) ∈ _))
  have inLeft : b ∈ left := (besideInside ends.1).1
  have inRight : b ∈ right := (besideInside ends'.1).1
  have total := cutDepth cut filled.toWoven diagonal
  rw [filled.depth b (cut.leftInside inLeft)] at total
  have low := depthLow first b inLeft
  have low' := depthLow second b inRight
  exact filledFrom first inLeft (by omega)

end
end Cut

end SceneStream.Geometry.Plane
