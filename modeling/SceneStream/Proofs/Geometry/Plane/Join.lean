import SceneStream.Proofs.Geometry.Plane.Simple

/-! Two rings that a bridge makes one of. The bridge is walked once each way, and cuts each of the corners that it ends in
into two. -/
namespace SceneStream.Geometry.Plane

section
variable {β : Type}

/-- What two rings have that are joined between `t` and `h`. They come to these from `a` and from `c`, and go on to `b`
and to `d`; their other corners are kept. -/
structure Join (j r k : List β) (t h a b c d : β) (rs ks : List (β × β × β)) : Prop where
  edges : (edges j).Perm ((t, h) :: (h, t) :: (Geometry.edges r ++ Geometry.edges k))
  corners : (triples j).Perm ((a, t, h) :: (h, t, b) :: (c, h, t) :: (t, h, d) :: (rs ++ ks))
  left : (triples r).Perm ((a, t, b) :: rs)
  right : (triples k).Perm ((c, h, d) :: ks)

variable {j r k : List β} {t h a b c d : β} {rs ks : List (β × β × β)}

theorem joinAt {l m l₁ m₁ : List β} (first : b :: l = l₁ ++ [a]) (second : d :: m = m₁ ++ [c]) :
    Join (t :: h :: d :: m ++ h :: t :: b :: l) (t :: b :: l) (h :: d :: m) t h a b c d
      (turns (t :: b :: l ++ [t])) (turns (h :: d :: m ++ [h])) := by
  have last : (t :: b :: l).getLast (by simp) = a := by simp [first]
  have last' : (h :: d :: m).getLast (by simp) = c := by simp [second]
  have whole : (t :: (h :: d :: m ++ h :: t :: b :: l)).getLast (by simp) = a := by simp [first]
  refine ⟨?_, ?_, ?_, ?_⟩
  · have path : t :: (h :: d :: m ++ h :: t :: b :: l) ++ [t] = (t :: h :: d :: m) ++ h :: (t :: b :: l ++ [t]) := by simp
    rw [List.cons_append, edgesCons, path, stepsAppend, edgesCons, edgesCons]
    rw [← Multiset.coe_eq_coe]
    simp only [stepsCons, List.cons_append, ← Multiset.cons_coe, ← Multiset.coe_add, ← Multiset.singleton_add]
    abel
  · have path : a :: t :: (h :: d :: m ++ h :: t :: b :: l) ++ [t] =
        [a, t] ++ h :: d :: (m ++ h :: t :: (b :: l ++ [t])) := by simp
    have inner : h :: d :: (m ++ h :: t :: (b :: l ++ [t])) = (h :: d :: m) ++ h :: t :: (b :: l ++ [t]) := by simp
    have back : h :: d :: m ++ [h, t] = h :: m₁ ++ c :: h :: [t] := by simp [second]
    have short : h :: d :: m ++ [h] = h :: m₁ ++ [c, h] := by simp [second]
    have corners : triples (t :: h :: d :: m ++ h :: t :: b :: l) = (a, t, h) :: (t, h, d) ::
        (turns (h :: d :: m ++ [h]) ++ (c, h, t) :: (h, t, b) :: turns (t :: b :: l ++ [t])) := by
      rw [List.cons_append, triplesCons, whole, path, turnsAppend, inner, turnsAppend (h :: d :: m) h t, back,
        turnsAppend (h :: m₁) c h, short]
      simp [turns]
    rw [corners, ← Multiset.coe_eq_coe]
    simp only [← Multiset.cons_coe, ← Multiset.coe_add, ← Multiset.singleton_add]
    abel
  · rw [triplesCons, last]
    exact .refl _
  · rw [triplesCons, last']
    exact .refl _

section
variable (join : Join j r k t h a b c d rs ks)
include join

theorem joinTurned : Join j k r h t c d a b ks rs where
  edges := join.edges.trans ((List.Perm.swap ..).trans ((List.perm_append_comm.cons _).cons _))
  corners := by
    refine join.corners.trans ?_
    rw [← Multiset.coe_eq_coe]
    simp only [← Multiset.cons_coe, ← Multiset.coe_add, ← Multiset.singleton_add]
    abel
  left := join.right
  right := join.left

theorem joinBegun {r' : List β} (turned : r.IsRotated r') : Join j r' k t h a b c d rs ks :=
  ⟨join.edges.trans ((((edgesTurned turned).append_right _).cons _).cons _), join.corners,
    (triplesTurned turned).symm.trans join.left, join.right⟩

theorem joinEnds : (a, t, b) ∈ triples r ∧ (c, h, d) ∈ triples k :=
  ⟨join.left.mem_iff.mpr (List.mem_cons_self ..), join.right.mem_iff.mpr (List.mem_cons_self ..)⟩

theorem joinMiddle {u} (mem : u ∈ (a, t, h) :: (h, t, b) :: rs) : u.2.1 ∈ r := by
  have first := (besideInside (cornerBeside (joinEnds join).1).1).1
  rcases List.mem_cons.mp mem with rfl | rest
  · exact first
  rcases List.mem_cons.mp rest with rfl | old
  · exact first
  · exact (besideInside (cornerBeside (join.left.mem_iff.mpr (List.mem_cons_of_mem _ old))).1).1

theorem joinMembers : j.Perm (t :: h :: (r ++ k)) := by
  have firsts := join.edges.map Prod.fst
  simpa [edgesFirst] using firsts

theorem joinInside {x : β} : x ∈ j ↔ x ∈ r ∨ x ∈ k := by
  have first := (besideInside (cornerBeside (joinEnds join).1).1).1
  have second := (besideInside (cornerBeside (joinEnds join).2).1).1
  rw [(joinMembers join).mem_iff]
  simp only [List.mem_cons, List.mem_append]
  refine ⟨?_, fun either => Or.inr (Or.inr either)⟩
  rintro (rfl | rfl | either)
  · exact Or.inl first
  · exact Or.inr second
  · exact either

theorem joinEdge {e} : e ∈ edges j ↔ e = (t, h) ∨ e = (h, t) ∨ e ∈ edges r ∨ e ∈ edges k := by
  rw [join.edges.mem_iff]
  simp only [List.mem_cons, List.mem_append]

theorem joinSum {γ : Type} [AddCommGroup γ] (f : β × β → γ) (turned : f (h, t) = -f (t, h)) :
    ((Geometry.edges j).map f).sum = ((Geometry.edges r).map f).sum + ((Geometry.edges k).map f).sum := by
  rw [(join.edges.map f).sum_eq, List.map_cons, List.sum_cons, List.map_cons, List.sum_cons, turned, List.map_append,
    List.sum_append]
  abel

theorem joinCorner {u} : u ∈ triples j ↔ (u ∈ (a, t, h) :: (h, t, b) :: rs) ∨ u ∈ (c, h, t) :: (t, h, d) :: ks := by
  rw [join.corners.mem_iff]
  simp only [List.mem_cons, List.mem_append]
  tauto

end
end

section Order
variable {α : Type} [Field α] [LinearOrder α]

def Aloof (r k : List (α × α)) : Prop :=
  ∀ e ∈ edges r, ∀ f ∈ edges k, ∀ w ∈ segment α e.1 e.2, w ∉ segment α f.1 f.2

/-- A segment between corners of two rings that leaves each of them inward and meets the rings nowhere else. -/
structure Bridge (r k : List (α × α)) (t h a b c d : α × α) : Prop where
  aloof : Aloof r k
  free : Free r t h
  free' : Free k h t
  first : Within (angle t b) (angle t h) (angle t a)
  last : Within (angle h d) (angle h t) (angle h c)

theorem freeBack {x y p q : α × α} (free : (p, q) = (x, y) ∨ (p, q) = (y, x) ∨ Apart x y p q) :
    (x, y) = (p, q) ∨ (x, y) = (q, p) ∨ Apart p q x y := by
  rcases free with same | same | apart
  · exact Or.inl same.symm
  · exact Or.inr (Or.inl (Prod.swap_inj.mp same).symm)
  · exact Or.inr (Or.inr (apartSymm apart))

theorem aloofTurned {r k : List (α × α)} (aloof : Aloof r k) : Aloof k r :=
  fun e first f second w on onward => aloof f second e first w onward on

theorem bridgeTurned {r k : List (α × α)} {t h a b c d : α × α} (bridge : Bridge r k t h a b c d) :
    Bridge k r h t c d a b :=
  ⟨aloofTurned bridge.aloof, bridge.free', bridge.free, bridge.last, bridge.first⟩

end Order

variable {α : Type} [Field α] [LinearOrder α] [IsStrictOrderedRing α] {j r k : List (α × α)} {t h a b c d : α × α}
  {rs ks : List ((α × α) × (α × α) × (α × α))}

theorem aloofMembers (aloof : Aloof r k) {p : α × α} (first : p ∈ r) : p ∉ k := by
  intro second
  obtain ⟨u, corner, rfl⟩ := cornerAt first
  obtain ⟨v, corner', same⟩ := cornerAt second
  exact aloof _ (triplesInside corner).2 _ (triplesInside corner').2 _ (left_mem_segment ..)
    (same ▸ left_mem_segment ..)

section Join
variable (join : Join j r k t h a b c d rs ks) (bridge : Bridge r k t h a b c d)
include join bridge

theorem bridgeEnds : t ∈ r ∧ t ∉ k ∧ h ∈ k ∧ h ∉ r := by
  obtain ⟨first, second⟩ := joinEnds join
  have left := (besideInside (cornerBeside first).1).1
  have right := (besideInside (cornerBeside second).1).1
  exact ⟨left, aloofMembers bridge.aloof left, right, aloofMembers (aloofTurned bridge.aloof) right⟩

theorem joinBeside {x p : α × α} (mem : x ∈ r) (beside : Beside j x p) : Beside r x p ∨ x = t ∧ p = h := by
  have away := aloofMembers bridge.aloof mem
  obtain ⟨-, -, other, -⟩ := bridgeEnds join bridge
  have right (beside : Beside k x p) : False := away (besideInside beside).1
  rcases beside with edge | edge <;> rcases (joinEdge join).mp edge with same | same | old | old
  · cases same
    exact Or.inr ⟨rfl, rfl⟩
  · cases same
    exact absurd other away
  · exact Or.inl (Or.inl old)
  · exact (right (Or.inl old)).elim
  · cases same
    exact absurd other away
  · cases same
    exact Or.inr ⟨rfl, rfl⟩
  · exact Or.inl (Or.inr old)
  · exact (right (Or.inr old)).elim

theorem joinSectors (woven : Woven r) {u} (mem : u ∈ (a, t, h) :: (h, t, b) :: rs) {p : α × α} (beside : Beside j u.2.1 p) :
    u.1 ≠ u.2.2 ∧ ¬Within (angle u.2.1 u.2.2) (angle u.2.1 p) (angle u.2.1 u.1) := by
  -- Corners of the first ring, two of them made out of one, are corners of their own still.
  have first := (joinEnds join).1
  obtain ⟨before, after⟩ := cornerBeside first
  obtain ⟨here, -, -, out⟩ := bridgeEnds join bridge
  have new {q : α × α} (mem : q ∈ r) : q ≠ h := fun same => out (same ▸ mem)
  rcases List.mem_cons.mp mem with rfl | rest
  · refine ⟨new (besideInside before).2, fun within => ?_⟩
    rcases joinBeside join bridge here beside with old | ⟨-, rfl⟩
    · exact woven.sectors _ first p old (withinAfter within bridge.first)
    · exact withinBegin within
  rcases List.mem_cons.mp rest with rfl | old
  · refine ⟨(new (besideInside after).2).symm, fun within => ?_⟩
    rcases joinBeside join bridge here beside with old | ⟨-, rfl⟩
    · exact woven.sectors _ first p old (withinBefore within bridge.first)
    · exact withinEnd within
  · have corner : u ∈ triples r := join.left.mem_iff.mpr (List.mem_cons_of_mem _ old)
    refine ⟨woven.ends u corner, fun within => ?_⟩
    rcases joinBeside join bridge (besideInside (cornerBeside corner).1).1 beside with known | ⟨same, rfl⟩
    · exact woven.sectors u corner p known within
    · have unique : (triples r).Nodup := List.Nodup.of_map _ (triplesAfter r ▸ woven.once)
      have mine : Holds t (toward t p true) u := ⟨same, same ▸ withinIn within⟩
      have whole := heldOnce woven corner first mine ⟨rfl, withinIn bridge.first⟩
      exact (List.nodup_cons.mp (join.left.nodup_iff.mp unique)).1 (whole ▸ old)

omit [IsStrictOrderedRing α] in
theorem joinFree : Free j t h := by
  intro e mem
  rcases (joinEdge join).mp mem with rfl | rfl | old | old
  · exact Or.inl rfl
  · exact Or.inr (Or.inl rfl)
  · exact bridge.free e old
  · exact freeTurned bridge.free' e old

theorem joinWoven (level : Level (r ++ k)) (woven : Woven r) (woven' : Woven k) : Woven j where
  level := by
    intro p first q second
    rw [joinInside join, ← List.mem_append] at first second
    exact level p first q second
  proper := by
    obtain ⟨-, out, inside, -⟩ := bridgeEnds join bridge
    have differ : t ≠ h := fun same => out (same ▸ inside)
    intro e mem
    rcases (joinEdge join).mp mem with rfl | rfl | old | old
    · exact differ
    · exact differ.symm
    · exact woven.proper e old
    · exact woven'.proper e old
  once := by
    obtain ⟨-, off, inside, off'⟩ := bridgeEnds join bridge
    refine join.edges.nodup_iff.mpr (List.nodup_cons.mpr ⟨fun mem => ?_, List.nodup_cons.mpr ⟨fun mem => ?_, ?_⟩⟩)
    · rcases List.mem_cons.mp mem with same | old
      · obtain rfl : t = h := (Prod.ext_iff.mp same).1
        exact off inside
      · exact (List.mem_append.mp old).elim (fun edge => off' (edgesInside edge).2) fun edge => off (edgesInside edge).1
    · exact (List.mem_append.mp mem).elim (fun edge => off' (edgesInside edge).1) fun edge => off (edgesInside edge).2
    · refine List.nodup_append.mpr ⟨woven.once, woven'.once, fun e first f second same => ?_⟩
      exact aloofMembers bridge.aloof (edgesInside (same ▸ first)).1 (edgesInside second).1
  free := by
    have bridged := joinFree join bridge
    intro e mem f mem'
    rcases (joinEdge join).mp mem with rfl | rfl | old | old
    · exact bridged f mem'
    · exact freeTurned bridged f mem'
    · rcases (joinEdge join).mp mem' with rfl | rfl | old' | old'
      · exact freeBack (bridged e mem)
      · exact freeBack (freeTurned bridged e mem)
      · exact woven.free e old f old'
      · exact Or.inr (Or.inr fun w on onward => absurd onward (bridge.aloof e old f old' w on))
    · rcases (joinEdge join).mp mem' with rfl | rfl | old' | old'
      · exact freeBack (bridged e mem)
      · exact freeBack (freeTurned bridged e mem)
      · exact Or.inr (Or.inr fun w on onward => absurd on (bridge.aloof f old' e old w onward))
      · exact woven'.free e old f old'
  ends := by
    intro u mem
    rcases (joinCorner join).mp mem with left | right
    · exact (joinSectors join bridge woven left (cornerBeside mem).1).1
    · exact (joinSectors (joinTurned join) (bridgeTurned bridge) woven' right (cornerBeside mem).1).1
  sectors := by
    intro u mem p beside
    rcases (joinCorner join).mp mem with left | right
    · exact (joinSectors join bridge woven left beside).2
    · exact (joinSectors (joinTurned join) (bridgeTurned bridge) woven' right beside).2

theorem joinFilled (level : Level (r ++ k)) (filled : Filled r) (woven : Woven k) (low : ∀ p ∈ k, ∃ q ∈ r, p.2 < q.2) :
    Filled j := by
  obtain ⟨z, mem, top⟩ := topVertex (List.ne_nil_of_mem (bridgeEnds join bridge).1)
  have zero := topCorners top
  rw [filled.depth z mem, zero_eq_neg] at zero
  refine filledTop (joinWoven join bridge level filled.toWoven woven) ((joinInside join).mpr (Or.inl mem)) ?_ ?_
  · intro p inside
    rcases (joinInside join).mp inside with here | there
    · exact top p here
    · obtain ⟨q, here, less⟩ := low p there
      exact (less.trans_le (top q here)).le
  · intro u corner same wraps
    have first := (joinEnds join).1
    rcases (joinCorner join).mp corner with left | right
    · have kept (here : t = z) : angle z b < angle z h ∧ angle z h < angle z a := by
        subst here
        have within := bridge.first
        unfold Within at within
        rwa [if_pos (lt_of_le_of_ne (not_lt.mp fun wraps => markZero zero _ first ⟨rfl, wraps⟩)
          (cornerAngles filled.toWoven first))] at within
      rcases List.mem_cons.mp left with rfl | rest
      · exact wraps.not_gt (kept same).2
      rcases List.mem_cons.mp rest with rfl | old
      · exact wraps.not_gt (kept same).1
      · exact markZero zero u (join.left.mem_iff.mpr (List.mem_cons_of_mem _ old)) ⟨same, wraps⟩
    · exact aloofMembers bridge.aloof mem (same ▸ joinMiddle (joinTurned join) right)

end Join

theorem joinTurning (join : Join j r k t h a b c d rs ks) (z : α × α) : turning j z = turning r z + turning k z :=
  joinSum join (fun e => crossing z e.1 e.2) (crossingReversed z t h)

end SceneStream.Geometry.Plane
