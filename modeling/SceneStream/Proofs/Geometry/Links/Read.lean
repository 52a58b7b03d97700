import SceneStream.Proofs.Geometry.Links.Walk

/-! What is read off a chain of links is what is read off the list of its vertices. Members of the list have
numbers, those of the chain the places of their links. -/
namespace SceneStream.Geometry.Links
variable {α : Type} {ls : Links α} {a b : Node α × Nat} {l c : Chain α}

def ring (c : Chain α) : Ring α := c.map (·.1)

def place (c : Chain α) (i : Nat) : Nat := (c.map (·.2)).getD i 0

def located (c : Chain α) : Node α × Nat → Node α × Nat := Prod.map id (place c)

theorem ringLocated (c : Chain α) : (ring c).zipIdx.map (located c) = c := by
  refine List.ext_getElem (by simp [ring]) fun i first second => ?_
  simp [ring, located, place, second]

theorem tailLocated (b : Node α × Nat) (l : Chain α) : ((ring l).zipIdx 1).map (located (b :: l)) = l := by
  have whole := ringLocated (b :: l)
  simp only [ring, List.map_cons, List.zipIdx_cons, Nat.zero_add] at whole
  exact (List.cons.inj whole).2

theorem rotatePlace {i : Nat} (inside : i < c.length) :
    ∃ e m, c.rotate i = e :: m ∧ place c i = e.2 ∧ Ring.startAt i (ring c) = ring (e :: m) := by
  obtain ⟨e, m, begun⟩ : ∃ e m, c.rotate i = e :: m :=
    List.exists_cons_of_ne_nil fun none => by
      have := congrArg List.length none
      simp only [List.length_rotate, List.length_nil] at this
      omega
  refine ⟨e, m, begun, ?_, ?_⟩
  · have first : (c.rotate i)[0]? = (c : List _)[i]? := by
      rw [List.getElem?_rotate (by omega), Nat.zero_add, Nat.mod_eq_of_lt inside]
    rw [begun] at first
    simp [place, List.getD, ← first]
  · rw [← begun, startRotate (by simp [ring]; omega), ring, ← List.map_rotate]
    rfl

theorem memberLink (along : Along ls c) (mem : a ∈ c) : ∃ k, ls[a.2]? = some k ∧ k.node = a.1 :=
  Option.map_eq_some_iff.mp (along.nodes a mem)

theorem besideLinks (along : Along ls c) {t} (mem : t ∈ triples c) :
    (∃ k, ls[t.1.2]? = some k ∧ k.node = t.1.1) ∧ ∃ k, ls[t.2.2.2]? = some k ∧ k.node = t.2.2.1 := by
  have inside := triplesInside mem
  exact ⟨memberLink along (edgesInside inside.1).1, memberLink along (edgesInside inside.2).2⟩

theorem foldEdges {β : Type} (g : β → (Node α × Nat) × (Node α × Nat) → β) (s : β) :
    (triples c).foldl (fun s t => g s t.2) s = (edges c).foldl g s := by
  rw [← triplesAfter, List.foldl_map]

theorem foldMembers {β : Type} (g : β → Node α × Nat → β) (s : β) :
    (triples c).foldl (fun s t => g s t.2.1) s = c.foldl g s := by
  conv_rhs => rw [← triplesMiddle c, List.foldl_map]

def cornerOf (t : Triple α) : Ring.Corner α := ⟨t.1.1, t.2.1.1, t.2.2.1⟩

theorem cornersOf (c : Chain α) : Ring.corners (ring c) = (triples c).map cornerOf := by
  rw [Ring.corners, ring]
  change (triples (c.map (·.1))).map _ = _
  rw [triplesMap, List.map_map]
  rfl

theorem cornerReads (along : Along ls c) {t} (mem : t ∈ triples c) : ls.corner? (linkOf t) = some (cornerOf t) := by
  obtain ⟨⟨j, before, first⟩, k, after, last⟩ := besideLinks along mem
  simp [corner?, linkOf, cornerOf, before, after, first, last]

theorem placeOf {t} {i : Nat} (mem : (t, i) ∈ (triples c).zipIdx) : t.2.1.2 = place c i := by
  have here : (triples c)[i]? = some t := List.mem_zipIdx_iff_getElem?.mp mem
  have member : (c : List _)[i]? = some t.2.1 := by
    have middle := congrArg (·[i]?) (triplesMiddle c)
    simpa [here] using middle.symm
  simp [place, List.getD, member]

theorem foldNumbered {β γ : Type} (g : γ → β → γ) (l : List β) (s : γ) :
    l.zipIdx.foldl (fun s x => g s x.1) s = l.foldl g s := by
  conv_rhs => rw [← List.zipIdx_map_fst 0 l, List.foldl_map]

theorem foldFirst {β γ : Type} (f : β → Option γ) (l : List β) (s : Option γ) :
    l.foldl (fun found x => found.or (f x)) s = s.or (l.findSome? f) := by
  induction l generalizing s with
  | nil => simp
  | cons a l ih =>
    rw [List.foldl_cons, ih, Option.or_assoc, List.findSome?_cons]
    cases f a <;> rfl

variable [Scalar α]

theorem areaReads (along : Along ls (b :: l)) (apart : ((b :: l).map (·.2)).Nodup) :
    ls.area b.2 = some (Ring.area (ring (b :: l))) := by
  unfold area
  rw [aroundFolds (g := fun s t => s + (t.2.1.1.u * t.2.2.1.v - t.2.2.1.u * t.2.1.1.v)) along apart]
  · rw [foldEdges fun s e => s + (e.1.1.u * e.2.1.v - e.2.1.u * e.1.1.v), Ring.area, ring, edgesMap,
      List.foldl_map]
    rfl
  · intro s t mem
    obtain ⟨-, k, found, node⟩ := besideLinks along mem
    simp [found, node, linkOf]

theorem leftmostReads (along : Along ls (b :: l)) (apart : ((b :: l).map (·.2)).Nodup) :
    ls.leftmost b.2 = some (place (b :: l) (Ring.leftmost (ring (b :: l)))) := by
  let further (best x : Node α × Nat) := if Ring.isLeftOf x.1 best.1 then x else best
  obtain ⟨t, -, first, link, rest⟩ := tailFolds (g := fun best t => further best t.2.1)
    (f := fun best p k => some (if Ring.isLeftOf k.node best.1 then (k.node, p) else best))
    along apart (fun s t _ => rfl)
  have linked : (turns (b :: l ++ [b])).foldl (fun best t => further best t.2.1) b = l.foldl further b := by
    conv_rhs => rw [← turnsMiddle b l b, List.foldl_map]
  have step (best x : Node α × Nat) : further (located (b :: l) best) (located (b :: l) x) =
      located (b :: l) (further best x) := by
    by_cases left : Ring.isLeftOf x.1 best.1 <;> simp [further, located, left]
  have numbered : ((ring l).zipIdx 1).foldl (fun best x => further best (located (b :: l) x))
        (located (b :: l) (b.1, 0)) =
      located (b :: l) (((ring l).zipIdx 1).foldl further (b.1, 0)) :=
    List.foldl_hom (located (b :: l)) step
  rw [← List.foldl_map, tailLocated, show located (b :: l) (b.1, 0) = b from rfl] at numbered
  have here := rest b
  have node : (linkOf t).node = b.1 := congrArg Prod.fst first
  rw [linked, numbered] at here
  simp only [leftmost, link, Option.bind_eq_bind, Option.bind_some, node]
  change (ls.onward b.2 _ _ _ b).bind _ = _
  rw [here]
  rfl

theorem visibleReads (along : Along ls (b :: l)) (apart : ((b :: l).map (·.2)).Nodup) (eps : α) (h t : Node α) :
    ls.isVisible eps h t b.2 = some (Ring.isVisible eps h t (ring (b :: l))) := by
  unfold isVisible
  rw [aroundFolds (g := fun clear e => clear && (e.2.1.1.same eps t || e.2.2.1.same eps t ||
    !(Node.meet eps h t e.2.1.1 e.2.2.1))) along apart]
  · rw [foldEdges fun clear e => clear && (e.1.1.same eps t || e.2.1.same eps t || !(Node.meet eps h t e.1.1 e.2.1)),
      foldAll, Bool.true_and, Ring.isVisible, ring, edgesMap, List.all_map]
    rfl
  · intro s t mem
    obtain ⟨-, k, found, node⟩ := besideLinks along mem
    simp [found, node, linkOf]

def crossing (c : Chain α) (x : Ring.Crossing α) : Ring.Crossing α := (x.1, located c x.2.1, located c x.2.2)

theorem hitStepLocated (eps : α) (h : Node α) (best : Option (Ring.Crossing α))
    (e : (Node α × Nat) × (Node α × Nat)) :
    Ring.hitStep eps h (best.map (crossing c)) (Prod.map (located c) (located c) e) =
      (Ring.hitStep eps h best e).map (crossing c) := by
  obtain ⟨⟨a, i⟩, d, j⟩ := e
  cases best <;>
    simp only [Ring.hitStep, apply_ite (Option.map _), Option.map_none, Option.map_some, crossing,
      located, Prod.map_apply, id] <;> rfl

theorem hitReads (along : Along ls (b :: l)) (apart : ((b :: l).map (·.2)).Nodup) (eps : α) (h : Node α) :
    ls.hit? eps h b.2 = some ((Ring.hit? eps h (ring (b :: l))).map (Prod.map (located (b :: l)) (located (b :: l)))) := by
  have numbered : (edges (ring (b :: l)).zipIdx).foldl
        (fun best e => Ring.hitStep eps h best (Prod.map (located (b :: l)) (located (b :: l)) e))
        (Option.map (crossing (b :: l)) none) =
      ((edges (ring (b :: l)).zipIdx).foldl (Ring.hitStep eps h) none).map (crossing (b :: l)) :=
    List.foldl_hom (Option.map (crossing (b :: l))) fun best e => hitStepLocated eps h best e
  rw [Option.map_none, ← List.foldl_map, ← edgesMap, ringLocated] at numbered
  unfold hit?
  rw [aroundFolds (g := fun best e => Ring.hitStep eps h best e.2) along apart]
  · rw [foldEdges, numbered]
    simp [Ring.hit?, crossing, Function.comp_def, Prod.map]
  · intro s t mem
    obtain ⟨-, k, found, node⟩ := besideLinks along mem
    simp [found, node, linkOf]

theorem nearestReads (along : Along ls (b :: l)) (apart : ((b :: l).map (·.2)).Nodup) (eps : α) (h : Node α) :
    ls.nearest? eps h b.2 = some ((Ring.nearest? eps h (ring (b :: l))).map (place (b :: l))) := by
  let nearer (best : Option (α × Nat)) (x : Node α × Nat) :=
    if Ring.isNearer best (x.1.squaredDistance h) && Ring.isVisible eps h x.1 (ring (b :: l)) then
      some (x.1.squaredDistance h, x.2) else best
  have step (best : Option (α × Nat)) (x : Node α × Nat) :
      nearer (best.map (Prod.map id (place (b :: l)))) (located (b :: l) x) =
        (nearer best x).map (Prod.map id (place (b :: l))) := by
    have same (d : α) : Ring.isNearer (best.map (Prod.map id (place (b :: l)))) d = Ring.isNearer best d := by
      cases best <;> rfl
    simp only [nearer, located, Prod.map_fst, Prod.map_snd, id, same, apply_ite (Option.map _), Option.map_some,
      Prod.map_apply]
  have numbered := foldRelated (f := nearer) (g := fun best x => nearer best (located (b :: l) x))
    (ring (b :: l)).zipIdx (Option.map (Prod.map id (place (b :: l)))) (fun best x _ => step best x) none
  rw [Option.map_none, ← List.foldl_map, ringLocated] at numbered
  unfold nearest?
  rw [aroundFolds (g := fun best t => nearer best t.2.1) along apart]
  · rw [foldMembers, numbered]
    simp [Ring.nearest?, nearer, Function.comp_def]
  · intro best t mem
    simp only [linkOf, visibleReads along apart, nearer]
    by_cases near : Ring.isNearer best (t.2.1.1.squaredDistance h) <;> simp [near]

theorem endsLocated {c : Chain α} (h : Node α) (e : (Node α × Nat) × (Node α × Nat)) :
    Ring.endsByDistance h (Prod.map (located c) (located c) e) = (Ring.endsByDistance h e).map (located c) := by
  obtain ⟨⟨a, i⟩, d, j⟩ := e
  simp only [Ring.endsByDistance, located, Prod.map_apply, id, apply_ite (List.map _), List.map_cons, List.map_nil]
  rfl

theorem findsAll {β : Type} (l : List β) {f : β → Option Bool} {p : β → Bool} (same : ∀ x, f x = some (p x)) :
    l.findM? f = some (l.find? p) := by
  induction l with
  | nil => rfl
  | cons a l ih =>
    cases holds : p a <;> simp [List.findM?, List.find?, same, ih, holds]

theorem bridgeReads (along : Along ls (b :: l)) (apart : ((b :: l).map (·.2)).Nodup) (eps : α)
    {hole : Nat} {h : Node α} (found : ls.nodeAt hole = some h) :
    ls.bridge? eps hole b.2 = some ((Ring.bridge? eps h (ring (b :: l))).map (place (b :: l))) := by
  obtain ⟨k, link, rfl⟩ := Option.map_eq_some_iff.mp found
  let clear (x : Node α × Nat) : Bool := x.1.u ≤ k.node.u + eps && Ring.isVisible eps k.node x.1 (ring (b :: l))
  have test (x : Node α × Nat) : (if x.1.u ≤ k.node.u + eps then ls.isVisible eps k.node x.1 b.2 else some false) =
      some (clear x) := by
    by_cases left : x.1.u ≤ k.node.u + eps <;> simp [clear, left, visibleReads along apart]
  have ends : (((Ring.hit? eps k.node (ring (b :: l))).map (Prod.map (located (b :: l)) (located (b :: l)))).map
      (Ring.endsByDistance k.node)).getD [] =
      (((Ring.hit? eps k.node (ring (b :: l))).map (Ring.endsByDistance k.node)).getD []).map (located (b :: l)) := by
    cases Ring.hit? eps k.node (ring (b :: l)) with
    | none => rfl
    | some e => exact endsLocated k.node e
  have same : clear ∘ located (b :: l) = clear := rfl
  simp only [bridge?, Ring.bridge?, link, hitReads along apart, Option.bind_eq_bind, Option.bind_some, ends,
    findsAll _ test, List.find?_map, same]
  rw [show (fun x : Node α × Nat =>
    decide (x.1.u ≤ k.node.u + eps) && Ring.isVisible eps k.node x.1 (ring (b :: l))) = clear from rfl]
  cases List.find? clear (((Ring.hit? eps k.node (ring (b :: l))).map (Ring.endsByDistance k.node)).getD []) with
  | none => exact nearestReads along apart eps k.node
  | some x => rfl

theorem earTestReads (along : Along ls c) (apart : (c.map (·.2)).Nodup) (long : 3 ≤ c.length) (eps : α) {t} {i : Nat}
    (mem : (t, i) ∈ (triples c).zipIdx) :
    ls.isEar eps (linkOf t) = some (Ring.isEar eps (Ring.corners (ring c)) i (cornerOf t)) := by
  obtain ⟨k, begun⟩ := triplesBegun long mem
  have inside : t ∈ triples c := List.fst_mem_of_mem_zipIdx mem
  obtain ⟨x, m, y, next, around⟩ := triplesAround t.1 t.2.1 t.2.2 k
  have whole : triples (c.rotate i) =
      t :: (t.2.1, t.2.2, x) :: (turns (t.2.2 :: k ++ [t.1]) ++ [(y, t.1, t.2.1)]) := begun ▸ around
  have links : ∀ s ∈ triples (c.rotate i), ls[s.2.1.2]? = some (linkOf s) :=
    fun s mem => alongLink (alongRotate along i) mem
  have corners : ∀ s ∈ triples (c.rotate i), ls.corner? (linkOf s) = some (cornerOf s) :=
    fun s mem => cornerReads (alongRotate along i) mem
  rw [whole] at links corners
  simp only [List.forall_mem_cons, List.forall_mem_append] at links corners
  have apartHere : ((c.rotate i).map (·.2)).Nodup := by
    rw [List.map_rotate]
    exact List.nodup_rotate.mpr apart
  rw [begun, List.map_append, List.nodup_append] at apartHere
  have short : k.length < ls.length := by
    have size := congrArg List.length begun
    have bound := chainShort along apart
    simp only [List.length_rotate, List.length_append, List.length_cons] at size
    omega
  have walk := onwardFolds (g := fun clear s => clear && !(cornerOf t).blockedBy eps (cornerOf s))
    (f := fun clear _ j => do return clear && !(cornerOf t).blockedBy eps (← ls.corner? j))
    ls.length k t.2.2 x m next short
    (fun b mem => apartHere.2.2 _ (List.mem_map_of_mem (List.mem_cons_of_mem _ (List.mem_cons_of_mem _ mem))) _ (by simp))
    links.2.2.1 (fun clear s mem => by simp [corners.2.2.1 s mem]) true
  have begin : Ring.startAt i (Ring.corners (ring c)) = (triples (c.rotate i)).map cornerOf := by
    have bound := (List.mem_zipIdx mem).2.1
    rw [cornersOf, startRotate (by simpa using by omega), triplesRotate, List.map_rotate]
  have next : ls[(linkOf t).next]? = some (linkOf (t.2.1, t.2.2, x)) := links.2.1
  rw [foldAll, Bool.true_and] at walk
  rw [Ring.isEar, begin, whole]
  simp only [isEar, corners.1, next, Option.bind_eq_bind, Option.bind_some, List.map_cons, List.drop_succ_cons,
    List.drop_zero, List.map_append, List.map_nil, List.dropLast_concat, List.all_map]
  exact walk

theorem earReads (along : Along ls (b :: l)) (apart : ((b :: l).map (·.2)).Nodup) (long : 3 ≤ (b :: l).length) (eps : α) :
    ls.ear? eps b.2 = some ((Ring.ear? eps (Ring.corners (ring (b :: l)))).map (place (b :: l))) := by
  let test (t) := (ls.isEar eps (linkOf t)).getD false
  let pick (best : Option (α × Nat)) (k : Ring.Corner α) (ear : Bool) (p : Nat) :=
    if eps < k.turn && Ring.isSharper best k.angle && ear then some (k.angle, p) else best
  have tested {t i} (mem : (t, i) ∈ (triples (b :: l)).zipIdx) := earTestReads along apart long eps mem
  have step (best : Option (α × Nat)) (t : Triple α × Nat)
      (mem : t ∈ (triples (b :: l)).zipIdx) :
      pick (best.map (Prod.map id (place (b :: l)))) (cornerOf t.1) (test t.1) t.1.2.1.2 =
        (pick best (cornerOf t.1) (Ring.isEar eps (Ring.corners (ring (b :: l))) t.2 (cornerOf t.1)) t.2).map
          (Prod.map id (place (b :: l))) := by
    have same (x : α) : Ring.isSharper (best.map (Prod.map id (place (b :: l)))) x = Ring.isSharper best x := by
      cases best <;> rfl
    simp only [pick, test, tested mem, placeOf mem, same, Option.getD_some, apply_ite (Option.map _),
      Option.map_some, Prod.map_apply, id]
  have numbered := foldRelated (f := fun best t => pick best (cornerOf t.1)
      (Ring.isEar eps (Ring.corners (ring (b :: l))) t.2 (cornerOf t.1)) t.2)
    (g := fun best t => pick best (cornerOf t.1) (test t.1) t.1.2.1.2)
    (triples (b :: l)).zipIdx (Option.map (Prod.map id (place (b :: l)))) step none
  rw [Option.map_none, foldNumbered fun best t => pick best (cornerOf t) (test t) t.2.1.2] at numbered
  unfold ear?
  rw [aroundFolds (g := fun best t => pick best (cornerOf t) (test t) t.2.1.2) along apart]
  · simp only [numbered, Option.bind_eq_bind, Option.bind_some, Ring.ear?, cornersOf, List.zipIdx_map,
      List.foldl_map, Option.map_map]
    rfl
  · intro best t mem
    obtain ⟨i, inside, rfl⟩ := List.getElem_of_mem mem
    have tested := tested (List.mem_zipIdx_iff_getElem?.mpr (List.getElem?_eq_getElem inside))
    simp only [cornerReads along mem, Option.bind_eq_bind, Option.bind_some, pick, test, tested, Option.getD_some]
    by_cases sharp : (eps < (cornerOf (triples (b :: l))[i]).turn &&
      Ring.isSharper best (cornerOf (triples (b :: l))[i]).angle) <;> simp [sharp]

theorem flatReads (along : Along ls (b :: l)) (apart : ((b :: l).map (·.2)).Nodup) (eps : α) :
    ls.flat? eps b.2 = some ((Ring.flat? eps (Ring.corners (ring (b :: l)))).map (place (b :: l))) := by
  let flat (t : Triple α) (p : Nat) : Option Nat :=
    if Scalar.abs (cornerOf t).turn ≤ eps then some p else none
  have numbered := foldRelated (f := fun found t => found.or (flat t.1 t.2))
    (g := fun found t => found.or (flat t.1 t.1.2.1.2)) (triples (b :: l)).zipIdx (Option.map (place (b :: l)))
    (fun found t mem => by
      cases found <;> simp [flat, placeOf mem, apply_ite (Option.map _)]) none
  rw [Option.map_none, foldNumbered fun (found : Option Nat) (t : Triple α) => found.or (flat t t.2.1.2),
    foldFirst fun x : Triple α × Nat => flat x.1 x.2, Option.none_or] at numbered
  unfold flat?
  rw [aroundFolds (g := fun found t => found.or (flat t t.2.1.2)) along apart, numbered, Ring.flat?, cornersOf,
    List.findIdx?_map, List.findIdx?_eq_findSome?_zipIdx]
  · simp [flat]
  · intro found t mem
    simp only [cornerReads along mem, Option.bind_eq_bind, Option.bind_some, flat]
    rfl

end SceneStream.Geometry.Links
