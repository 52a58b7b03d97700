import SceneStream.Geometry.Ring.Bridge
import SceneStream.Proofs.Geometry.Ring

/-! The searches along a ring, for an ear and for a bridge. What is chosen is a member that passes the test, and one is
chosen if there is any that does. -/
namespace SceneStream.Geometry.Ring

section Search
variable {β γ : Type} {pick : Option β → γ → Option β} {l : List γ}

theorem searchChosen {P : β → Prop} {x : β} (step : ∀ y ∈ l, ∀ best, pick best y = best ∨ ∃ x, P x ∧ pick best y = some x)
    (found : l.foldl pick none = some x) : P x := by
  refine List.foldlRecOn (motive := fun best => ∀ x, best = some x → P x) l pick ?_ ?_ x found
  · exact nofun
  intro best known y mem x last
  rcases step y mem best with same | ⟨z, holds, taken⟩
  · exact known x (same.symm.trans last)
  · cases taken.symm.trans last
    exact holds

theorem searchFound {x : γ} (kept : ∀ best y, best.isSome → (pick best y).isSome) (taken : ∀ best, (pick best x).isSome)
    (mem : x ∈ l) : ∃ y, l.foldl pick none = some y := by
  obtain ⟨before, after, rfl⟩ := List.append_of_mem mem
  rw [List.foldl_append, List.foldl_cons, ← Option.isSome_iff_exists]
  exact List.foldlRecOn (motive := fun best => best.isSome = true) after pick (taken _) fun best some y _ =>
    kept best y some

/-- A search for what is least, which prefers one of two to the other, ends with what no member is less than. -/
theorem searchLeast {α : Type} [Preorder α] {f : β → α} {better : β → β → β} (least : ∀ a b, f (better a b) ≤ f a ∧
    f (better a b) ≤ f b) (either : ∀ a b, better a b = a ∨ better a b = b) (a : β) (l : List β) :
    (∀ b ∈ a :: l, f (l.foldl better a) ≤ f b) ∧ l.foldl better a ∈ a :: l := by
  induction l generalizing a with
  | nil => simp
  | cons b l ih =>
    obtain ⟨rest, mem⟩ := ih (better a b)
    rw [List.forall_mem_cons] at rest
    rw [List.forall_mem_cons, List.forall_mem_cons, List.foldl_cons]
    refine ⟨⟨rest.1.trans (least a b).1, rest.1.trans (least a b).2, rest.2⟩, ?_⟩
    have := either a b
    grind

end Search

variable {α : Type} [Scalar α] {eps : α}

section Ear
variable {cs : List (Corner α)} {i : Nat}

theorem earChosen (found : ear? eps cs = some i) :
    ∃ c, cs[i]? = some c ∧ eps < c.turn ∧ isEar eps cs i c = true := by
  obtain ⟨x, last, rfl⟩ := Option.map_eq_some_iff.mp found
  refine searchChosen (P := fun x => ∃ c, cs[x.2]? = some c ∧ eps < c.turn ∧ isEar eps cs x.2 c = true) ?_ last
  rintro ⟨c, i⟩ mem best
  dsimp only
  split
  · rename_i better
    simp only [Bool.and_eq_true, decide_eq_true_eq] at better
    exact Or.inr ⟨_, ⟨c, List.mem_zipIdx_iff_getElem?.mp mem, better.1.1, better.2⟩, rfl⟩
  · exact Or.inl rfl

theorem earFound (finite : ∀ x : α, Scalar.isFinite x = true) {c : Corner α} (mem : (c, i) ∈ cs.zipIdx)
    (left : eps < c.turn) (ear : isEar eps cs i c = true) : ∃ j, ear? eps cs = some j := by
  let pick (best : Option (α × Nat)) (x : Corner α × Nat) : Option (α × Nat) :=
    if eps < x.1.turn && isSharper best x.1.angle && isEar eps cs x.2 x.1 then some (x.1.angle, x.2) else best
  have kept (best x) (some : best.isSome) : (pick best x).isSome := by
    unfold pick
    split <;> simp [some]
  have taken (best) : (pick best (c, i)).isSome := by
    cases best <;> simp [pick, left, ear, isSharper, finite]
    split <;> rfl
  obtain ⟨x, found⟩ := searchFound kept taken mem
  exact ⟨_, Option.map_eq_some_iff.mpr ⟨x, found, rfl⟩⟩

end Ear

section Bridge
variable {h t : Node α} {r : Ring α} {i : Nat}

theorem hitEither (eps : α) (h : Node α) (best : Option (Crossing α)) (edge : (Node α × Nat) × (Node α × Nat)) :
    hitStep eps h best edge = best ∨ ∃ u, hitStep eps h best edge = some (u, edge) := by
  unfold hitStep
  dsimp only
  split
  · exact Or.inl rfl
  · exact (ite_eq_or_eq ..).symm.imp_right fun taken => ⟨_, taken⟩

theorem hitInside {edge : (Node α × Nat) × (Node α × Nat)} (found : hit? eps h r = some edge) :
    edge ∈ edges r.zipIdx := by
  obtain ⟨c, last, rfl⟩ := Option.map_eq_some_iff.mp found
  refine searchChosen (P := fun c : Crossing α => c.2 ∈ edges r.zipIdx) (fun edge mem best => ?_) last
  exact (hitEither eps h best edge).imp_right fun ⟨u, taken⟩ => ⟨(u, edge), mem, taken⟩

theorem nearestChosen (found : nearest? eps h r = some i) : ∃ t, r[i]? = some t ∧ isVisible eps h t r = true := by
  obtain ⟨x, last, rfl⟩ := Option.map_eq_some_iff.mp found
  refine searchChosen (P := fun x => ∃ t, r[x.2]? = some t ∧ isVisible eps h t r = true) ?_ last
  rintro ⟨n, i⟩ mem best
  dsimp only
  split
  · rename_i better
    exact Or.inr ⟨_, ⟨n, List.mem_zipIdx_iff_getElem?.mp mem, (Bool.and_eq_true _ _ ▸ better).2⟩, rfl⟩
  · exact Or.inl rfl

theorem nearestFound (finite : ∀ x : α, Scalar.isFinite x = true) (mem : t ∈ r) (visible : isVisible eps h t r = true) :
    ∃ i, nearest? eps h r = some i := by
  let pick (best : Option (α × Nat)) (n : Node α × Nat) : Option (α × Nat) :=
    if isNearer best (n.1.squaredDistance h) && isVisible eps h n.1 r then some (n.1.squaredDistance h, n.2) else best
  have kept (best n) (some : best.isSome) : (pick best n).isSome := by
    unfold pick
    split <;> simp [some]
  have taken (best i) : (pick best (t, i)).isSome := by
    cases best <;> simp [pick, visible, isNearer, finite]
    split <;> rfl
  obtain ⟨i, here, rfl⟩ := List.getElem_of_mem mem
  have numbered : (r[i], i) ∈ r.zipIdx := List.mem_zipIdx_iff_getElem?.mpr (List.getElem?_eq_getElem here)
  obtain ⟨x, found⟩ := searchFound kept (taken · i) numbered
  exact ⟨_, Option.map_eq_some_iff.mpr ⟨x, found, rfl⟩⟩

theorem bridgeChosen (found : bridge? eps h r = some i) : ∃ t, r[i]? = some t ∧ isVisible eps h t r = true := by
  unfold bridge? at found
  dsimp only at found
  split at found
  · rename_i c first
    cases found
    obtain ⟨-, visible⟩ : _ ∧ isVisible eps h c.1 r = true := by simpa using List.find?_some first
    have mem := List.mem_of_find?_eq_some first
    cases hit : hit? eps h r with
    | none => simp [hit] at mem
    | some edge =>
      have ends := edgesInside (hitInside hit)
      rw [hit, Option.map_some, Option.getD_some] at mem
      have inside : c ∈ r.zipIdx := by
        unfold endsByDistance at mem
        dsimp only at mem
        split at mem <;> simp only [List.mem_cons, List.not_mem_nil, or_false] at mem <;>
          rcases mem with rfl | rfl <;> simp [ends]
      exact ⟨c.1, List.mem_zipIdx_iff_getElem?.mp inside, visible⟩
  · exact nearestChosen found

theorem bridgeFound (finite : ∀ x : α, Scalar.isFinite x = true) (mem : t ∈ r) (visible : isVisible eps h t r = true) :
    ∃ i, bridge? eps h r = some i := by
  unfold bridge?
  dsimp only
  split
  · exact ⟨_, rfl⟩
  · exact nearestFound finite mem visible

end Bridge

end SceneStream.Geometry.Ring
