import SceneStream.Proofs.Geometry.Plane.Join

/-! What a ring sweeps, as it is changed. A member beside another at the same place and the two ways along a
bridge make no difference; a corner that is cut off takes its triangle with it. -/
namespace SceneStream.Geometry.Plane
variable {α : Type} [Field α] {a b : α × α} {l : List (α × α)}

def stride (e : (α × α) × (α × α)) : α := e.1.1 * e.2.2 - e.2.1 * e.1.2

def walked (l : List (α × α)) : α := ((steps l).map stride).sum

theorem strideBack (a b : α × α) : stride (b, a) = -stride (a, b) := by
  unfold stride
  ring

theorem walkedCons (a b : α × α) (l : List (α × α)) : walked (a :: b :: l) = stride (a, b) + walked (b :: l) := by
  rw [walked, stepsCons, List.map_cons, List.sum_cons, walked]

theorem sweptWalked (a : α × α) (l : List (α × α)) : sweptArea (a :: l) = walked (a :: l ++ [a]) := by
  rw [sweptArea, edgesCons]
  rfl

theorem walkedSame (a : α × α) (l : List (α × α)) : walked (a :: a :: l) = walked (a :: l) := by
  rw [walkedCons, stride, mul_comm, sub_self, zero_add]

theorem sweptSame (a : α × α) (l : List (α × α)) : sweptArea (a :: a :: l) = sweptArea (a :: l) := by
  rw [sweptWalked, sweptWalked]
  exact walkedSame a (l ++ [a])

theorem sweptCorner (a b c : α × α) (l : List (α × α)) :
    sweptArea (a :: b :: c :: l) = turn a b c + sweptArea (a :: c :: l) := by
  have corner : stride (a, b) + stride (b, c) = turn a b c + stride (a, c) := by
    unfold stride turn
    ring
  rw [sweptWalked, sweptWalked]
  simp only [List.cons_append, walkedCons]
  rw [← add_assoc, corner, add_assoc]

theorem sweptShort {r : List (α × α)} (short : r.length < 3) : sweptArea r = 0 := by
  match r, short with
  | [], _ => rfl
  | [a], _ => rw [sweptWalked, List.singleton_append, walkedSame]; rfl
  | [a, b], _ =>
    rw [sweptWalked, List.cons_append, List.singleton_append, walkedCons, walkedCons, strideBack b a,
      neg_add_cancel_left]
    rfl

theorem sweptJoined {j r k : List (α × α)} {t h a b c d : α × α} {rs ks : List ((α × α) × (α × α) × (α × α))}
    (join : Join j r k t h a b c d rs ks) : sweptArea j = sweptArea r + sweptArea k :=
  joinSum join stride (strideBack t h)

end SceneStream.Geometry.Plane
