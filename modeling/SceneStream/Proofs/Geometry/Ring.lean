import Mathlib.Algebra.BigOperators.Group.List.Basic
import Mathlib.Data.List.Rotate
import SceneStream.Geometry.Ring.Ear

/-! A ring has no beginning: its edges and its corners are the same ones wherever it is begun, and a ring that
is cut in two parts has the inner corners of both. -/
namespace SceneStream.Geometry
open SceneStream.Geometry.Ring
variable {β γ : Type}

def steps (l : List β) : List (β × β) := l.zip l.tail

def turns : List β → List (β × β × β)
  | a :: b :: c :: l => (a, b, c) :: turns (b :: c :: l)
  | _ => []

/-- Every member of a ring, between those beside it. -/
def triples (l : List β) : List (β × β × β) := (startAt (l.length - 1) l).zip (l.zip (startAt 1 l))

theorem stepsCons (a b : β) (l : List β) : steps (a :: b :: l) = (a, b) :: steps (b :: l) := rfl

theorem stepsAppend (l : List β) (x : β) (m : List β) :
    steps (l ++ x :: m) = steps (l ++ [x]) ++ steps (x :: m) := by
  induction l with
  | nil => rfl
  | cons a l ih =>
    cases l with
    | nil => rfl
    | cons b l => exact congrArg ((a, b) :: ·) ih

theorem turnsAppend (l : List β) (x y : β) (m : List β) :
    turns (l ++ x :: y :: m) = turns (l ++ [x, y]) ++ turns (x :: y :: m) := by
  induction l with
  | nil => rfl
  | cons a l ih =>
    cases l with
    | nil => rfl
    | cons b l =>
      cases l with
      | nil => exact congrArg ((a, b, x) :: ·) ih
      | cons c l => exact congrArg ((a, b, c) :: ·) ih

theorem startRotate {i : Nat} {l : List β} (inside : i ≤ l.length) : startAt i l = l.rotate i :=
  (List.rotate_eq_drop_append_take inside).symm

theorem edgesCons (a : β) (l : List β) : edges (a :: l) = steps (a :: l ++ [a]) := by
  have : ∀ (b : β) (m : List β), (b :: m).zip (m ++ [a]) = steps (b :: m ++ [a]) := by
    intro b m
    induction m generalizing b with
    | nil => rfl
    | cons c m ih => exact congrArg ((b, c) :: ·) (ih c)
  exact this a l

theorem edgesZip (l : List β) : edges l = l.zip (l.rotate 1) := by
  cases l with
  | nil => rfl
  | cons a l => rw [edges, List.rotate_cons_succ, List.rotate_zero]

theorem edgesFirst (l : List β) : (edges l).map Prod.fst = l := by
  rw [edgesZip, List.map_fst_zip (List.length_rotate ..).ge]

theorem edgesSecond (l : List β) : (edges l).map Prod.snd = l.rotate 1 := by
  rw [edgesZip, List.map_snd_zip (List.length_rotate ..).le]

theorem edgesBalance [AddCommMonoid γ] (f : β → γ) (l : List β) :
    ((edges l).map fun e => f e.1).sum = ((edges l).map fun e => f e.2).sum := by
  -- Every member of a ring is one of two neighbours as often as the other.
  have first : (edges l).map (fun e => f e.1) = l.map f := by
    conv_rhs => rw [← edgesFirst l, List.map_map]
    rfl
  have second : (edges l).map (fun e => f e.2) = (l.rotate 1).map f := by
    rw [← edgesSecond l, List.map_map]
    rfl
  rw [first, second]
  exact ((List.rotate_perm l 1).map f).sum_eq.symm

theorem zipRotate (l : List β) (m : List γ) (n : Nat) (same : l.length = m.length) :
    (l.zip m).rotate n = (l.rotate n).zip (m.rotate n) := by
  exact List.zipWith_rotate_distrib Prod.mk l m n same

theorem edgesRotate (l : List β) (n : Nat) : edges (l.rotate n) = (edges l).rotate n := by
  rw [edgesZip, edgesZip, zipRotate _ _ _ (List.length_rotate ..).symm, List.rotate_rotate,
    List.rotate_rotate, Nat.add_comm]

theorem triplesZip (l : List β) :
    triples l = (l.rotate (l.length - 1)).zip (l.zip (l.rotate 1)) := by
  unfold triples
  cases l with
  | nil => rfl
  | cons a l => rw [startRotate (by simp), startRotate (by simp)]

theorem triplesRotate (l : List β) (n : Nat) : triples (l.rotate n) = (triples l).rotate n := by
  rw [triplesZip, triplesZip, zipRotate _ _ _ (by simp), zipRotate _ _ _ (by simp)]
  simp only [List.length_rotate, List.rotate_rotate]
  rw [Nat.add_comm n, Nat.add_comm n]

theorem turnsZip (a : β) (l : List β) (z : β) :
    turns (a :: l ++ [z]) = (a :: l).zip (l.zip (l.tail ++ [z])) := by
  induction l generalizing a with
  | nil => rfl
  | cons b l ih =>
    cases l with
    | nil => rfl
    | cons c l => exact congrArg ((a, b, c) :: ·) (ih b)

theorem triplesCons (b : β) (l : List β) :
    triples (b :: l) = turns ((b :: l).getLast (List.cons_ne_nil b l) :: b :: l ++ [b]) := by
  obtain ⟨m, a, split⟩ := List.eq_nil_or_concat (b :: l) |>.resolve_left (List.cons_ne_nil b l)
  have before : (b :: l).rotate ((b :: l).length - 1) = a :: m := by
    rw [split]
    simp
  have last : (b :: l).getLast (List.cons_ne_nil b l) = a := by simp [split]
  rw [triplesZip, before, last, turnsZip, List.rotate_cons_succ, List.rotate_zero, List.tail_cons]
  have long : (a :: m).length = ((b :: l).zip (l ++ [b])).length := by
    have same := congrArg List.length split
    simp only [List.length_cons, List.concat_eq_append, List.length_append, List.length_nil,
      List.length_zip] at same ⊢
    omega
  have cut : (a :: m).zip ((b :: l).zip (l ++ [b])) =
      (a :: m ++ [a]).zip ((b :: l).zip (l ++ [b]) ++ []) := by
    rw [List.zip_append long, List.zip_nil_right, List.append_nil]
  rw [cut, List.append_nil, List.cons_append, ← List.concat_eq_append, ← split]

theorem stepsInside {l : List β} {a b : β} (mem : (a, b) ∈ steps l) : a ∈ l.dropLast ∧ b ∈ l.tail := by
  induction l with
  | nil => cases mem
  | cons x l ih =>
    cases l with
    | nil => cases mem
    | cons y l =>
      rw [stepsCons] at mem
      rcases List.mem_cons.mp mem with first | later
      · cases first
        exact ⟨List.mem_cons_self .., List.mem_cons_self ..⟩
      · have inside := ih later
        exact ⟨List.mem_cons_of_mem _ inside.1, List.mem_cons_of_mem _ inside.2⟩

theorem edgesInside {l : List β} {a b : β} (mem : (a, b) ∈ edges l) : a ∈ l ∧ b ∈ l := by
  rw [edgesZip] at mem
  have inside := List.of_mem_zip mem
  exact ⟨inside.1, List.mem_rotate.mp inside.2⟩

theorem stepsReverse (l : List β) : steps l.reverse = ((steps l).map Prod.swap).reverse := by
  induction l with
  | nil => rfl
  | cons a l ih =>
    cases l with
    | nil => rfl
    | cons b l =>
      have last : steps (a :: b :: l).reverse = steps (b :: l).reverse ++ [(b, a)] := by
        rw [List.reverse_cons, List.reverse_cons, List.append_assoc, List.singleton_append, stepsAppend]
        rfl
      rw [last, ih, stepsCons, List.map_cons, List.reverse_cons, Prod.swap_prod_mk]

theorem edgesReverse (a : β) (l : List β) :
    edges (a :: l.reverse) = ((edges (a :: l)).map Prod.swap).reverse := by
  rw [edgesCons, edgesCons, ← stepsReverse]
  simp

theorem triplesAfter (l : List β) : (triples l).map (·.2) = edges l := by
  rw [triplesZip, edgesZip]
  exact List.map_snd_zip (by simp)

theorem triplesBefore (l : List β) : (triples l).map (fun t => (t.1, t.2.1)) = edges (l.rotate (l.length - 1)) := by
  have inner : (l.zip (l.rotate 1)).map Prod.fst = l := List.map_fst_zip (by simp)
  have pairs : (l.rotate (l.length - 1)).zip l = edges (l.rotate (l.length - 1)) := by
    cases l with
    | nil => rfl
    | cons a l =>
      rw [edgesZip, List.rotate_rotate]
      simp
  have firsts : (l.rotate (l.length - 1)).zip ((l.zip (l.rotate 1)).map Prod.fst) = _ := List.zip_map_right
  rw [inner] at firsts
  rw [← pairs, firsts, triplesZip]
  rfl

theorem triplesInside {l : List β} {t : β × β × β} (mem : t ∈ triples l) :
    (t.1, t.2.1) ∈ edges l ∧ (t.2.1, t.2.2) ∈ edges l := by
  constructor
  · have before : (t.1, t.2.1) ∈ edges (l.rotate (l.length - 1)) :=
      triplesBefore l ▸ List.mem_map_of_mem (f := fun t => (t.1, t.2.1)) mem
    rw [edgesRotate] at before
    exact List.mem_rotate.mp before
  · exact triplesAfter l ▸ List.mem_map_of_mem (f := (·.2)) mem

theorem edgeAfter {l : List β} {a b : β} (edge : (a, b) ∈ edges l) : ∃ t ∈ triples l, t.2.1 = a ∧ t.2.2 = b := by
  obtain ⟨t, mem, same⟩ := List.mem_map.mp (triplesAfter l ▸ edge)
  exact ⟨t, mem, Prod.ext_iff.mp same⟩

theorem edgeBefore {l : List β} {a b : β} (edge : (a, b) ∈ edges l) : ∃ t ∈ triples l, t.1 = a ∧ t.2.1 = b := by
  have turned : (a, b) ∈ (triples l).map fun t => (t.1, t.2.1) := by
    rw [triplesBefore, edgesRotate]
    exact List.mem_rotate.mpr edge
  obtain ⟨t, mem, same⟩ := List.mem_map.mp turned
  exact ⟨t, mem, Prod.ext_iff.mp same⟩

theorem edgesMap (f : β → γ) (l : List β) : edges (l.map f) = (edges l).map (Prod.map f f) := by
  rw [edgesZip, edgesZip, ← List.map_rotate, List.zip_map]

theorem edgeMapped (f : β → γ) {l : List β} {e : β × β} (edge : e ∈ edges l) : Prod.map f f e ∈ edges (l.map f) :=
  edgesMap f l ▸ List.mem_map_of_mem edge

theorem mappedEdge {f : β → γ} {l : List β} {e : γ × γ} (edge : e ∈ edges (l.map f)) :
    ∃ d ∈ edges l, Prod.map f f d = e := by
  rw [edgesMap] at edge
  exact List.mem_map.mp edge

theorem triplesMap (f : β → γ) (l : List β) :
    triples (l.map f) = (triples l).map fun (a, b, c) => (f a, f b, f c) := by
  rw [triplesZip, triplesZip, ← List.map_rotate, ← List.map_rotate, List.zip_map, List.zip_map, List.length_map]
  rfl

theorem triplesMiddle (l : List β) : (triples l).map (·.2.1) = l := by
  have inner := edgesFirst l
  rw [← triplesAfter, List.map_map] at inner
  exact inner

theorem triplesSize (l : List β) : (triples l).length = l.length := by
  simpa using congrArg List.length (triplesMiddle l)

theorem triplesTurns (a b : β) (l : List β) (z : β) :
    triples (a :: b :: l ++ [z]) = (z, a, b) :: turns (a :: b :: l ++ [z, a]) := by
  have last : (a :: b :: l ++ [z]).getLast (by simp) = z := List.getLast_append_singleton _
  have path : a :: b :: l ++ [z] = a :: (b :: l ++ [z]) := rfl
  simp only [path, triplesCons] at last ⊢
  rw [last]
  simp [turns]

theorem triplesAround (a b c : β) (k : List β) : ∃ x m y, k ++ [a] = x :: m ∧
    triples (b :: c :: k ++ [a]) = (a, b, c) :: (b, c, x) :: (turns (c :: k ++ [a]) ++ [(y, a, b)]) := by
  obtain ⟨x, m, next⟩ := List.exists_cons_of_ne_nil (List.append_ne_nil_of_right_ne_nil k (List.cons_ne_nil a []))
  obtain ⟨k', y, last⟩ := (List.eq_nil_or_concat (c :: k)).resolve_left (List.cons_ne_nil c k)
  rw [List.concat_eq_append] at last
  refine ⟨x, m, y, next, ?_⟩
  have inner : turns (c :: k ++ [a, b]) = turns (c :: k ++ [a]) ++ [(y, a, b)] := by
    rw [last, List.append_assoc, List.append_assoc]
    exact turnsAppend k' y a [b]
  have path : k ++ [a, b] = x :: (m ++ [b]) := by
    rw [← List.singleton_append, ← List.append_assoc, next, List.cons_append]
  rw [triplesTurns, ← inner]
  simp only [List.cons_append, path, turns]

theorem triplesBegun {l : List β} {i : Nat} {t : β × β × β} (long : 3 ≤ l.length) (mem : (t, i) ∈ (triples l).zipIdx) :
    ∃ k, l.rotate i = t.2.1 :: t.2.2 :: k ++ [t.1] := by
  obtain ⟨-, inside, here⟩ := List.mem_zipIdx mem
  rw [Nat.zero_add] at inside
  obtain ⟨a, b, k, z, begun⟩ : ∃ a b k z, l.rotate i = a :: b :: k ++ [z] := by
    match turned : l.rotate i with
    | [] | [_] | [_, _] =>
      have := congrArg List.length turned
      simp only [List.length_rotate, List.length_cons, List.length_nil] at this
      omega
    | a :: b :: c :: m =>
      obtain ⟨k, z, split⟩ := (List.eq_nil_or_concat (c :: m)).resolve_left (List.cons_ne_nil c m)
      exact ⟨a, b, k, z, by rw [split, List.concat_eq_append]; rfl⟩
  have head : (triples (l.rotate i))[0]? = some t := by
    rw [triplesRotate, List.getElem?_rotate (by omega), Nat.zero_add, Nat.mod_eq_of_lt inside, here]
    simp
  rw [begun, triplesTurns] at head
  cases head
  exact ⟨k, begun⟩

theorem edgesTurned {l m : List β} (turned : l.IsRotated m) : (edges l).Perm (edges m) := by
  obtain ⟨n, rfl⟩ := turned
  rw [edgesRotate]
  exact (List.rotate_perm ..).symm

theorem triplesTurned {l m : List β} (turned : l.IsRotated m) : (triples l).Perm (triples m) := by
  obtain ⟨n, rfl⟩ := turned
  rw [triplesRotate]
  exact (List.rotate_perm ..).symm

theorem eraseTurned {l m : List β} {i : Nat} {a : β} (inside : i < l.length) (begun : l.rotate i = a :: m) :
    m.IsRotated (l.eraseIdx i) := by
  rw [List.rotate_eq_drop_append_take inside.le, List.drop_eq_getElem_cons inside, List.cons_append] at begun
  rw [← (List.cons.inj begun).2, List.eraseIdx_eq_take_drop_succ]
  exact List.isRotated_append

theorem tripleBegun {l : List β} {t : β × β × β} (long : 3 ≤ l.length) (mem : t ∈ triples l) :
    ∃ i k, l.rotate i = t.2.1 :: t.2.2 :: k ++ [t.1] := by
  obtain ⟨i, inside, here⟩ := List.getElem_of_mem mem
  exact ⟨i, triplesBegun long (List.mem_zipIdx_iff_getElem?.mpr (here ▸ List.getElem?_eq_getElem inside))⟩

theorem cornerBegun {l : List β} {t : β × β × β} (long : 3 ≤ l.length) (mem : t ∈ triples l) :
    ∃ k, (t.1 :: t.2.1 :: t.2.2 :: k).IsRotated l := by
  obtain ⟨i, k, begun⟩ := tripleBegun long mem
  exact ⟨k, (List.isRotated_append (l := [t.1])).trans (begun ▸ List.IsRotated.forall l i)⟩

end SceneStream.Geometry
