import SceneStream.Proofs.Geometry.Plane.Corner

/-! Rings that touch themselves but do not cross: an edge may be walked once each way, and a vertex may be come by more
than once. All of the corners of such a ring are on one side of it. -/
namespace SceneStream.Geometry.Plane

section
variable {β : Type}

def Beside (r : List β) (z p : β) : Prop := (z, p) ∈ edges r ∨ (p, z) ∈ edges r

theorem besideInside {r : List β} {z p : β} (beside : Beside r z p) : z ∈ r ∧ p ∈ r :=
  beside.elim (fun edge => edgesInside edge) fun edge => (edgesInside edge).symm

theorem cornerBeside {r : List β} {t} (mem : t ∈ triples r) : Beside r t.2.1 t.1 ∧ Beside r t.2.1 t.2.2 :=
  ⟨Or.inr (triplesInside mem).1, Or.inl (triplesInside mem).2⟩

theorem markNone {l : List β} {P : β → Prop} (none : ∀ x ∈ l, ¬P x) : (l.map fun x => mark (P x)).sum = 0 :=
  List.sum_eq_zero (by simpa using fun x mem => markFalse (none x mem))

theorem markOnce {l : List β} {P : β → Prop} (nodup : l.Nodup) (unique : ∀ x ∈ l, ∀ y ∈ l, P x → P y → x = y)
    {x : β} (mem : x ∈ l) (holds : P x) : (l.map fun y => mark (P y)).sum = 1 := by
  obtain ⟨l₁, l₂, rfl⟩ := List.append_of_mem mem
  have away : ∀ y ∈ l₁ ++ l₂, ¬P y := by
    intro y other holds'
    have same := unique x mem y (by grind) holds holds'
    subst same
    grind [List.nodup_middle]
  have first := markNone (P := P) fun y other => away y (List.mem_append_left l₂ other)
  have second := markNone (P := P) fun y other => away y (List.mem_append_right l₁ other)
  rw [List.map_append, List.map_cons, List.sum_append, List.sum_cons, first, second, markTrue holds]
  rfl

theorem markBounds (l : List β) (P : β → Prop) : ∀ m ∈ l.map fun x => mark (P x), 0 ≤ m := by
  intro m mem
  obtain ⟨x, -, rfl⟩ := List.mem_map.mp mem
  unfold mark
  split <;> decide

theorem markZero {l : List β} {P : β → Prop} (zero : (l.map fun x => mark (P x)).sum = 0) : ∀ x ∈ l, ¬P x := by
  intro x mem holds
  have each := List.all_zero_of_le_zero_le_of_sum_eq_zero (markBounds l P) zero (List.mem_map_of_mem mem)
  rw [markTrue holds] at each
  cases each

theorem ringConstant {γ : Type} {l : List β} {f : β → γ} (same : ∀ e ∈ edges l, f e.1 = f e.2) :
    ∀ x ∈ l, ∀ y ∈ l, f x = f y := by
  cases l with
  | nil => exact nofun
  | cons a l =>
    have chain : ∀ (b : β) (m : List β), (∀ e ∈ steps (b :: m), f e.1 = f e.2) → ∀ x ∈ b :: m, f x = f b := by
      intro b m
      induction m generalizing b with
      | nil =>
        intro _ x mem
        rw [List.mem_singleton.mp mem]
      | cons c m ih =>
        intro kept x mem
        rw [stepsCons] at kept
        rcases List.mem_cons.mp mem with rfl | later
        · rfl
        · exact (ih c (fun e inside => kept e (List.mem_cons_of_mem _ inside)) x later).trans
            (kept (b, c) (List.mem_cons_self ..)).symm
    rw [edgesCons] at same
    have all := chain a (l ++ [a]) same
    intro x first y second
    rw [all x (List.mem_append_left [a] first), all y (List.mem_append_left [a] second)]

end

section Order
variable {α : Type} [Field α] [LinearOrder α]

structure Woven (r : List (α × α)) : Prop where
  level : Level r
  proper : ∀ e ∈ edges r, e.1 ≠ e.2
  once : (edges r).Nodup
  free : ∀ e ∈ edges r, Free r e.1 e.2
  ends : ∀ t ∈ triples r, t.1 ≠ t.2.2
  sectors : ∀ t ∈ triples r, ∀ p, Beside r t.2.1 p →
    ¬Within (angle t.2.1 t.2.2) (angle t.2.1 p) (angle t.2.1 t.1)

section
variable {r : List (α × α)} (woven : Woven r) {z : α × α}
include woven

theorem besideProper {p : α × α} (beside : Beside r z p) : p ≠ z :=
  beside.elim (fun edge => (woven.proper _ edge).symm) fun edge => woven.proper _ edge

theorem besideFree {p : α × α} (beside : Beside r z p) : Free r z p :=
  beside.elim (fun edge => woven.free _ edge) fun edge => freeTurned (woven.free _ edge)

theorem besideOff {p : α × α} (beside : Beside r z p) : p.2 ≠ z.2 := fun same =>
  besideProper woven beside (woven.level p (besideInside beside).2 z (besideInside beside).1 same)

theorem besideApart {p q : α × α} (first : Beside r z p) (second : Beside r z q) (differ : p ≠ q) : Apart z p z q := by
  have offP := besideProper woven first
  have offQ := besideProper woven second
  rcases second with edge | edge <;> rcases besideFree woven first _ edge with same | same | apart
  · cases same
    exact absurd rfl differ
  · cases same
    exact absurd rfl offQ
  · exact apart
  · cases same
    exact absurd rfl offP
  · cases same
    exact absurd rfl differ
  · exact apartTurned apart

end
omit [Field α] in
theorem topVertex {r : List (α × α)} (some : r ≠ []) : ∃ z ∈ r, ∀ p ∈ r, p.2 ≤ z.2 :=
  Multiset.exists_max_image Prod.snd (s := (r : Multiset (α × α))) (by simpa using some)

theorem topCorners {r : List (α × α)} {z : α × α} (top : ∀ p ∈ r, p.2 ≤ z.2) :
    depth r z = -((triples r).map fun t => mark (t.2.1 = z ∧ angle z t.1 < angle z t.2.2)).sum := by
  -- All corners that a ring makes at a vertex that no other is above bulge, unless the ring winds about it
  -- backwards.
  have none : ∀ e ∈ edges r, (if e.1 = z ∨ e.2 = z then (0 : ℤ) else crossing z e.1 e.2) = 0 := by
    intro e mem
    obtain ⟨first, second⟩ := edgesInside mem
    split
    · rfl
    · rw [crossing, markFalse fun h => h.2.1.not_ge (top e.2 second), markFalse fun h => h.2.1.not_ge (top e.1 first),
        sub_zero]
  rw [depth, List.map_congr_left none, List.sum_eq_zero (by simp), zero_sub]

end Order

variable {α : Type} [Field α] [LinearOrder α] [IsStrictOrderedRing α]

theorem angleApart {z p q : α × α} (offP : p.2 ≠ z.2) (offQ : q.2 ≠ z.2) (differ : p ≠ q) (apart : Apart z p z q) :
    angle z p ≠ angle z q := by
  intro same
  have half : p.2 < z.2 ↔ q.2 < z.2 := decide_eq_decide.mp (congrArg (fun t => (ofLex t).1) same)
  have sides : 0 < (p.2 - z.2) * (q.2 - z.2) := by
    rcases lt_or_gt_of_ne offP with low | high
    · exact mul_pos_of_neg_of_neg (sub_neg.mpr low) (sub_neg.mpr (half.mp low))
    · exact mul_pos (sub_pos.mpr high) (sub_pos.mpr (lt_of_le_of_ne (not_lt.mp (mt half.mpr high.not_gt)) offQ.symm))
  exact apartTurn sides differ apart (angleLine offP offQ same)

section Woven
variable {r : List (α × α)} (woven : Woven r) {z : α × α}
include woven

theorem besideAngle {p q : α × α} (first : Beside r z p) (second : Beside r z q) (same : angle z p = angle z q) :
    p = q := by
  by_contra differ
  exact angleApart (besideOff woven first) (besideOff woven second) differ (besideApart woven first second differ) same

theorem cornerAngles {t} (mem : t ∈ triples r) : angle t.2.1 t.2.2 ≠ angle t.2.1 t.1 := fun same =>
  woven.ends t mem (besideAngle woven (cornerBeside mem).2 (cornerBeside mem).1 same).symm

theorem heldOnce {g : Germ α} {t u} (first : t ∈ triples r) (second : u ∈ triples r) (holds : Holds z g t)
    (holds' : Holds z g u) : t = u := by
  obtain ⟨here, inside⟩ := holds
  obtain ⟨there, within⟩ := holds'
  have unique : ((triples r).map (·.2)).Nodup := triplesAfter r ▸ woven.once
  refine List.inj_on_of_nodup_map unique first second (Prod.ext (here.trans there.symm) ?_)
  by_contra differ
  have begin := (cornerBeside first).2
  have begin' := (cornerBeside second).2
  have before := woven.sectors t first u.2.2
  have after := woven.sectors u second t.2.2
  rw [here] at begin before
  rw [there] at begin' after
  exact sectorsApart inside within (fun same => differ (besideAngle woven begin begin' same)) (before begin') (after begin)

theorem windingHeld {g : Germ α} {t} (mem : t ∈ triples r) (holds : Holds z g t) : winding r z g = depth r z + 1 := by
  have unique : ((triples r).map (·.2)).Nodup := triplesAfter r ▸ woven.once
  rw [windingDepth woven.proper (fun t => cornerAngles woven),
    markOnce (List.Nodup.of_map _ unique) (fun t first u second => heldOnce woven first second) mem holds]

theorem windingOpen {g : Germ α} (none : ∀ t ∈ triples r, ¬Holds z g t) : winding r z g = depth r z := by
  rw [windingDepth woven.proper (fun t => cornerAngles woven), markNone none, add_zero]

/-- On the left of an edge the winding is more by one. -/
theorem leftHeld {x y : α × α} (edge : (x, y) ∈ edges r) : winding r x (toward x y true) = depth r x + 1 := by
  obtain ⟨t, mem, rfl, rfl⟩ := edgeAfter edge
  refine windingHeld woven mem ⟨rfl, ?_⟩
  have differ := cornerAngles woven mem
  unfold Germ.In
  split
  · exact ⟨Or.inr ⟨rfl, rfl⟩, fun past => past.elim (fun h => h.not_gt ‹_›) fun h => differ h.2.symm⟩
  · exact Or.inl (Or.inr ⟨rfl, rfl⟩)

theorem rightHeld {x y : α × α} (edge : (x, y) ∈ edges r) : winding r y (toward y x false) = depth r y + 1 := by
  obtain ⟨t, mem, rfl, rfl⟩ := edgeBefore edge
  refine windingHeld woven mem ⟨rfl, ?_⟩
  have future : ¬(toward t.2.1 t.1 false).Past (angle t.2.1 t.1) := by simp [Germ.Past, toward]
  unfold Germ.In
  split
  · exact ⟨Or.inl ‹_›, future⟩
  · exact Or.inr future

theorem depthEdge {x y : α × α} (edge : (x, y) ∈ edges r) : depth r x = depth r y := by
  have inside := edgesInside edge
  have same : winding r y (toward y x false) = winding r x (toward x y true) :=
    sweep (woven.proper _ edge) woven.proper (fun a one b two => woven.level a (by grind) b (by grind))
      (woven.free _ edge) true
  have left := leftHeld woven edge
  have right := rightHeld woven edge
  omega

end Woven

theorem depthSame {r : List (α × α)} (woven : Woven r) : ∀ x ∈ r, ∀ y ∈ r, depth r x = depth r y :=
  ringConstant fun _ edge => depthEdge woven edge

theorem depthLow {r : List (α × α)} (woven : Woven r) : ∀ x ∈ r, depth r x ≤ 0 := by
  intro x mem
  obtain ⟨z, inside, top⟩ := topVertex (List.ne_nil_of_mem mem)
  rw [depthSame woven x mem z inside, topCorners top]
  exact neg_nonpos.mpr (List.sum_nonneg (markBounds _ _))

/-- A woven ring that winds about nothing but what its corners hold. -/
structure Filled (r : List (α × α)) : Prop extends Woven r where
  depth : ∀ z ∈ r, depth r z = 0

theorem filledFrom {r : List (α × α)} (woven : Woven r) {z : α × α} (mem : z ∈ r) (zero : Plane.depth r z = 0) :
    Filled r :=
  ⟨woven, fun x inside => (depthSame woven x inside z mem).trans zero⟩

theorem topBulges {r : List (α × α)} (filled : Filled r) {t} (mem : t ∈ triples r) (top : ∀ p ∈ r, p.2 ≤ t.2.1.2) :
    0 < turn t.1 t.2.1 t.2.2 := by
  obtain ⟨before, after⟩ := cornerBeside mem
  have zero := topCorners top
  rw [filled.depth _ (besideInside before).1, zero_eq_neg] at zero
  have order : angle t.2.1 t.2.2 < angle t.2.1 t.1 :=
    lt_of_le_of_ne (not_lt.mp fun wraps => markZero zero t mem ⟨rfl, wraps⟩) (cornerAngles filled.toWoven mem)
  have low {p} (beside : Beside r t.2.1 p) : p.2 < t.2.1.2 :=
    lt_of_le_of_ne (top p (besideInside beside).2) (besideOff filled.toWoven beside)
  rwa [angleSame (iff_of_true (low after) (low before)) (low after).ne (low before).ne, turnRotate, turnRotate] at order

end SceneStream.Geometry.Plane
