import SceneStream.Proofs.Geometry.Hole

/-! Holes joined one after the other. Each is joined by a bridge that is sure to be found, and the ring that results is
filled where no bridge comes upon a hole and each ends in the corner that it comes from. -/
namespace SceneStream.Geometry
variable {α : Type} [Field α] [LinearOrder α] [Roots α]

/-- What the way between two nodes has in common with the edges of a ring. -/
def Meets (x y : Node α) (r : Ring α) (w : α × α) : Prop :=
  w ∈ segment α x.place y.place ∧ ∃ e ∈ edges r, w ∈ segment α e.1.place e.2.place

/-- The way from `h` leaves the hole at once, and does not come upon another one. -/
def Aside (h t : Node α) (hole : Ring α) (rest : List (Nat × Ring α)) : Prop :=
  (∀ w, Meets h t hole w → w = h.place) ∧ ∀ k ∈ rest, ∀ w, ¬Meets h t k.2 w

/-- The holes are joined to a ring by bridges that meet it and them in their ends only. -/
inductive Bridged : Ring α → List (Nat × Ring α) → Ring α → Prop
  | done {ring : Ring α} : Bridged ring [] ring
  | next {ring whole : Ring α} {rest : List (Nat × Ring α)} {n i : Nat} {h t : Node α} {m : List (Node α)}
    (found : Ring.bridge? 0 h ring = some i) (here : ring[i]? = some t) (outer : ∀ w, Meets h t ring w → w = t.place)
    (aside : Aside h t (h :: m) rest) (later : Bridged (ring.join i (h :: m)) rest whole) :
    Bridged ring ((n, h :: m) :: rest) whole

/-- A bridge that goes to the left or comes upon no hole, and that ends in the only node at its place or in one whose corner
opens toward it. -/
structure Fair (ring : Ring α) (hole : Ring α) (rest : List (Nat × Ring α)) (h : Node α) (i : Nat) (a t b : Node α) :
    Prop where
  aside : t.u < h.u ∨ Aside h t hole rest
  opens : (∀ j, (ring.map Node.place)[j]? = some t.place → j = i) ∨ Plane.Opens a.place t.place b.place h.place

def Clear : Ring α → List (Nat × Ring α) → Prop
  | _, [] => True
  | ring, hole :: rest => ∀ h i a t b, hole.2.head? = some h → Ring.bridge? 0 h ring = some i →
      (triples ring)[i]? = some (a, t, b) → Fair ring hole.2 rest h i a t b ∧ Clear (ring.join i hole.2) rest

/-- Each bridge is found and meets the ring in its end only, as long as those before it are fair; and one that is fair
comes upon no hole. -/
def Sought : Ring α → List (Nat × Ring α) → Prop
  | _, [] => True
  | ring, hole :: rest => ∃ h i a t b, hole.2.head? = some h ∧ Ring.bridge? 0 h ring = some i ∧
      (triples ring)[i]? = some (a, t, b) ∧ (∀ w, Meets h t ring w → w = t.place) ∧
        (Fair ring hole.2 rest h i a t b → Aside h t hole.2 rest ∧ Sought (ring.join i hole.2) rest)

theorem bridgedRun {ring whole : Ring α} {holes : List (Nat × Ring α)} (bridged : Bridged ring holes whole) :
    holes.foldlM (Triangulation.attach 0) ring = .ok whole := by
  induction bridged with
  | done => rfl
  | next found here outer aside later ih =>
    rw [List.foldlM_cons, Triangulation.attach]
    simp only [found]
    exact ih

variable [IsStrictOrderedRing α] {s : α}

theorem spotOn {w : α × α} {x y : Node α} : Plane.tilt s w ∈ segment α (x.spot s) (y.spot s) ↔
    w ∈ segment α x.place y.place := Plane.tiltOn

omit [LinearOrder α] [Roots α] [IsStrictOrderedRing α] in
theorem spotPlace {x y : Node α} : x.spot s = y.spot s ↔ x.place = y.place :=
  ⟨Plane.tiltSame, congrArg _⟩

theorem spotMeets {x y : Node α} {r : Ring α} {e : (α × α) × (α × α)} {w : α × α}
    (edge : e ∈ edges (r.map (Node.spot s))) (on : w ∈ segment α (x.spot s) (y.spot s))
    (onward : w ∈ segment α e.1 e.2) : Meets x y r (Plane.tilt (-s) w) := by
  obtain ⟨e, edge', rfl⟩ := mappedEdge edge
  rw [← Plane.tiltBack s w] at on onward
  exact ⟨spotOn.mp on, e, edge', spotOn.mp onward⟩

omit [Field α] [LinearOrder α] [Roots α] [IsStrictOrderedRing α] in
theorem joinImages {γ : Type} (f : Node α → γ) {ring hole : Ring α} {i : Nat} {a t b h : Node α} {k m : List (Node α)}
    (inside : i ≤ ring.length) (begun : ring.rotate i = t :: b :: k ++ [a]) (long : m ≠ []) (same : hole = h :: m) :
    ∃ c d rs ks, Plane.Join ((ring.join i hole).map f) (ring.map f) (hole.map f) (f t) (f h) (f a) (f b) c d rs ks := by
  subst same
  obtain ⟨d, m, rfl⟩ := List.exists_cons_of_ne_nil long
  obtain ⟨m', c, last⟩ := (List.eq_nil_or_concat (d :: m)).resolve_left long
  have joined : (ring.join i (h :: d :: m)).map f = f t :: f h :: f d :: m.map f ++
      f h :: f t :: f b :: (k ++ [a]).map f := by
    unfold Ring.join
    rw [startRotate inside, begun]
    simp
  have first : f b :: (k ++ [a]).map f = (b :: k).map f ++ [f a] := by simp
  have second : f d :: m.map f = m'.map f ++ [f c] := by
    rw [← List.map_cons, last]
    simp
  have turned := (List.IsRotated.forall ring i).map f
  rw [begun] at turned
  rw [joined]
  exact ⟨_, _, _, _, Plane.joinBegun (Plane.joinAt first second) turned⟩

theorem leftAside {h t : Node α} {k : Ring α} {w : α × α} (left : t.u < h.u) (right : ∀ x ∈ k, h.u ≤ x.u)
    (meets : Meets h t k w) : w = h.place := by
  obtain ⟨on, e, edge, onward⟩ := meets
  obtain ⟨first, second⟩ := edgesInside edge
  obtain ⟨x, x0, x1, rfl⟩ := Plane.onSegment.mp on
  obtain ⟨y, y0, y1, same⟩ := Plane.onSegment.mp onward
  have across : h.u + x * (t.u - h.u) = e.1.u + y * (e.2.u - e.1.u) := congrArg Prod.fst same
  have bounds := (Plane.partBounds (x := e.1.u) (y := e.2.u) y0 y1).1
  have zero : x = 0 := by
    have least : h.u ≤ e.1.u + y * (e.2.u - e.1.u) := (le_min (right _ first) (right _ second)).trans bounds
    by_contra other
    nlinarith [mul_pos (lt_of_le_of_ne x0 (Ne.symm other)) (sub_pos.mpr left)]
  simp [zero]

section Step
variable {ring : Ring α} {n : Nat} {h : Node α} {m : List (Node α)} {rest : List (Nat × Ring α)}
  (around : Plane.Around (ring.map (Node.spot s)) (((n, h :: m) :: rest).map fun k => k.2.map (Node.spot s)))
include around

omit [Roots α] in
theorem holeOff : Plane.Off (ring.map (Node.spot s)) (h.spot s) :=
  Plane.aloofOff (around.aloof _ (List.mem_cons_self ..)) (List.mem_cons_self ..)

theorem bridgeSure : ∃ i t, Ring.bridge? 0 h ring = some i ∧ ring[i]? = some t ∧
    Plane.Free (ring.map (Node.spot s)) (h.spot s) (t.spot s) := by
  have off := holeOff around
  obtain ⟨_, mem, free⟩ := Plane.aroundSeen around (List.mem_cons_self ..)
  obtain ⟨t, seen, rfl⟩ := List.mem_map.mp mem
  have visible : Ring.isVisible 0 h t ring = true := by
    refine (visibleExact h t ring).mpr fun e edge first second w on onward => ?_
    have edge' := edgeMapped (Node.spot s) edge
    rcases free _ edge' with same | same | apart
    · exact second (spotPlace.mp (congrArg Prod.snd same))
    · exact first (spotPlace.mp (congrArg Prod.fst same))
    · obtain ⟨begin | finish, ends⟩ := apart _ (spotOn.mpr on) (spotOn.mpr onward)
      · exact off _ edge' (begin ▸ spotOn.mpr onward)
      · rw [finish] at ends
        exact ends.elim (fun same => first (spotPlace.mp same).symm) fun same => second (spotPlace.mp same).symm
  obtain ⟨i, found⟩ := Ring.bridgeFound (fun _ => rfl) seen visible
  obtain ⟨t, place, visible⟩ := Ring.bridgeChosen found
  refine ⟨i, t, found, place, Plane.visibleFree around.filled.toWoven off fun e edge first second w on onward => ?_⟩
  obtain ⟨e, edge', rfl⟩ := mappedEdge edge
  rw [← Plane.tiltBack s w] at on onward
  exact (visibleExact h t ring).mp visible e edge' (fun same => first (spotPlace.mpr same))
    (fun same => second (spotPlace.mpr same)) _ (spotOn.mp on) (spotOn.mp onward)

theorem freeMeets {t : Node α} (free : Plane.Free (ring.map (Node.spot s)) (h.spot s) (t.spot s)) {w : α × α}
    (meets : Meets h t ring w) : w = t.place := by
  have off := holeOff around
  obtain ⟨on, e, edge, onward⟩ := meets
  have edge' := edgeMapped (Node.spot s) edge
  rcases free _ edge' with same | same | apart
  · exact absurd (left_mem_segment ..) (congrArg Prod.fst same ▸ off _ edge')
  · exact absurd (right_mem_segment ..) (congrArg Prod.snd same ▸ off _ edge')
  · rcases (apart _ (spotOn.mpr on) (spotOn.mpr onward)).1 with begin | finish
    · exact absurd (spotOn.mpr onward) (begin ▸ off _ edge')
    · exact Plane.tiltSame finish

theorem fairAside {i : Nat} {a t b : Node α} (least : ∀ k ∈ (n, h :: m) :: rest, ∀ x ∈ k.2, h.u ≤ x.u)
    (fair : Fair ring (h :: m) rest h i a t b) : Aside h t (h :: m) rest := by
  refine fair.aside.elim (fun left => ⟨fun w => leftAside left (least _ (List.mem_cons_self ..)), ?_⟩) id
  intro k mem w meets
  obtain rfl := leftAside left (least k (List.mem_cons_of_mem _ mem)) meets
  obtain ⟨-, e, edge, on⟩ := meets
  have apart := ((List.pairwise_cons.mp around.apart).1 _ (List.mem_map_of_mem mem)).1
  have off := Plane.aloofOff (Plane.aloofTurned apart) (List.mem_cons_self ..)
  exact off _ (edgeMapped (Node.spot s) edge) (spotOn.mpr on)

theorem fairCorner {i : Nat} {a t b : Node α} (fair : Fair ring (h :: m) rest h i a t b)
    (free : Plane.Free (ring.map (Node.spot s)) (h.spot s) (t.spot s)) (corner : (triples ring)[i]? = some (a, t, b)) :
    Plane.Within (Plane.angle (t.spot s) (b.spot s)) (Plane.angle (t.spot s) (h.spot s))
      (Plane.angle (t.spot s) (a.spot s)) := by
  have here : h.spot s ∈ (h :: m).map (Node.spot s) := by simp
  have woven := around.filled.toWoven
  have known : (a.spot s, t.spot s, b.spot s) ∈ triples (ring.map (Node.spot s)) := by
    rw [triplesMap]
    exact List.mem_map_of_mem (List.mem_of_getElem? corner)
  obtain ⟨before, after⟩ := Plane.cornerBeside known
  have off := holeOff around
  have level : Plane.Level (h.spot s :: ring.map (Node.spot s)) :=
    Plane.levelSubset (Plane.aroundLevel around) (by grind)
  rcases fair.opens with once | opens
  · obtain ⟨u, mem, same, within⟩ := Plane.aroundCorner around here (Plane.besideInside before).1 free
    rw [triplesMap] at mem
    obtain ⟨v, mem', rfl⟩ := List.mem_map.mp mem
    obtain ⟨j, inside, rfl⟩ := List.getElem_of_mem mem'
    have place : (ring.map Node.place)[j]? = some (triples ring)[j].2.1.place := by
      conv_lhs => rw [← triplesMiddle ring]
      simp [inside]
    obtain rfl : j = i := once j (place.trans (congrArg some (spotPlace.mp same)))
    have value : (triples ring)[j] = (a, t, b) := Option.some.inj ((List.getElem?_eq_getElem inside).symm.trans corner)
    rw [value] at within
    exact within
  · refine Plane.opensWithin ?_ (Plane.besideOff woven before) (Plane.besideOff woven after)
      (Plane.levelOther level (Plane.offNew off) (Plane.besideInside before).1)
      (Plane.seenAngle off level woven free after) (Plane.seenAngle off level woven free before)
    unfold Plane.Opens at opens ⊢
    simpa only [Node.spot, Plane.turnTilt] using opens

theorem bridgeFirst : ∃ i a t b, Ring.bridge? 0 h ring = some i ∧ (triples ring)[i]? = some (a, t, b) ∧
    Plane.Free (ring.map (Node.spot s)) (h.spot s) (t.spot s) ∧ ∀ w, Meets h t ring w → w = t.place := by
  obtain ⟨i, t, found, place, free⟩ := bridgeSure around
  obtain ⟨inside, -⟩ := List.getElem?_eq_some_iff.mp place
  obtain ⟨⟨a, t', b⟩, corner⟩ : ∃ u, (triples ring)[i]? = some u :=
    ⟨_, List.getElem?_eq_getElem (by rwa [triplesSize])⟩
  obtain rfl : t' = t := by
    have middle := congrArg (Option.map (·.2.1)) corner
    rw [← List.getElem?_map, triplesMiddle, place] at middle
    exact (Option.some.inj middle).symm
  exact ⟨i, a, t', b, found, corner, free, fun w => freeMeets around free⟩

theorem fairJoined {i : Nat} {a t b : Node α} (least : ∀ k ∈ (n, h :: m) :: rest, ∀ x ∈ k.2, h.u ≤ x.u)
    (fair : Fair ring (h :: m) rest h i a t b) (corner : (triples ring)[i]? = some (a, t, b))
    (free : Plane.Free (ring.map (Node.spot s)) (h.spot s) (t.spot s)) :
    Plane.Around ((ring.join i (h :: m)).map (Node.spot s)) (rest.map fun k => k.2.map (Node.spot s)) ∧
      ∃ a b c d rs ks, Plane.Join ((ring.join i (h :: m)).map (Node.spot s)) (ring.map (Node.spot s))
        ((h :: m).map (Node.spot s)) (t.spot s) (h.spot s) a b c d rs ks := by
  have here : h.spot s ∈ (h :: m).map (Node.spot s) := by simp
  have long : 3 ≤ ring.length := by simpa using around.long
  have inside : i ≤ ring.length := triplesSize ring ▸ (List.getElem?_eq_some_iff.mp corner).1.le
  have aside := fairAside around least fair
  obtain ⟨k, begun⟩ := triplesBegun long (List.mem_zipIdx_iff_getElem?.mpr corner)
  have more : m ≠ [] := by
    rintro rfl
    have := (around.holes _ (List.mem_cons_self ..)).1.long
    simp at this
  obtain ⟨c, d, rs, ks, join⟩ := joinImages (Node.spot s) inside begun more rfl
  refine ⟨?_, _, _, _, _, _, _, join⟩
  refine Plane.aroundJoin around here join free (fun e edge w on onward => ?_) (fun k other e edge w on onward => ?_)
    (fairCorner around fair free corner)
  · rw [← Plane.tiltBack s w, aside.1 _ (spotMeets edge on onward)]
    rfl
  · obtain ⟨k, mem, rfl⟩ := List.mem_map.mp other
    exact aside.2 k mem _ (spotMeets edge on onward)

end Step

structure Joined (s : α) (ring : Ring α) (holes : List (Nat × Ring α)) (whole : Ring α) : Prop where
  filled : Plane.Filled (whole.map (Node.spot s))
  size : whole.length = ring.length + (holes.map fun k => k.2.length + 2).sum
  turning : ∀ z, Plane.turning (whole.map (Node.spot s)) z =
    Plane.turning (ring.map (Node.spot s)) z + (holes.map fun k => Plane.turning (k.2.map (Node.spot s)) z).sum
  outer : edges (ring.map (Node.spot s)) ⊆ edges (whole.map (Node.spot s))
  inner : ∀ k ∈ holes, edges (k.2.map (Node.spot s)) ⊆ edges (whole.map (Node.spot s))

structure Ordered (holes : List (Nat × Ring α)) : Prop where
  begun : ∀ k ∈ holes, ∃ h m, k.2 = h :: m ∧ ∀ x ∈ k.2, h.u ≤ x.u
  order : holes.Pairwise fun j k => ∀ h ∈ j.2.head?, ∀ g ∈ k.2.head?, h.u ≤ g.u

omit [IsStrictOrderedRing α] in
theorem orderedLeast {hole : Nat × Ring α} {rest : List (Nat × Ring α)} (ordered : Ordered (hole :: rest)) :
    ∃ h m, hole.2 = h :: m ∧ (∀ k ∈ hole :: rest, ∀ x ∈ k.2, h.u ≤ x.u) ∧ Ordered rest := by
  obtain ⟨h, m, begun, least⟩ := ordered.begun _ (List.mem_cons_self ..)
  have apart := List.pairwise_cons.mp ordered.order
  refine ⟨h, m, begun, List.forall_mem_cons.mpr ⟨least, fun k mem x inside => ?_⟩,
    fun k mem => ordered.begun k (List.mem_cons_of_mem _ mem), apart.2⟩
  obtain ⟨g, l, same, least'⟩ := ordered.begun k (List.mem_cons_of_mem _ mem)
  exact (apart.1 k mem h (by rw [begun]; rfl) g (by rw [same]; rfl)).trans (least' x inside)

section Run
variable {ring : Ring α} {holes : List (Nat × Ring α)}
  (around : Plane.Around (ring.map (Node.spot s)) (holes.map fun k => k.2.map (Node.spot s))) (ordered : Ordered holes)
include around ordered

theorem attachSought : Sought ring holes := by
  induction holes generalizing ring with
  | nil => trivial
  | cons hole rest ih =>
    obtain ⟨n, r⟩ := hole
    obtain ⟨h, m, rfl, least, later⟩ := orderedLeast ordered
    obtain ⟨i, a, t, b, found, corner, free, outer⟩ := bridgeFirst around
    refine ⟨h, i, a, t, b, rfl, found, corner, outer, fun fair => ⟨fairAside around least fair, ?_⟩⟩
    exact ih (fairJoined around least fair corner free).1 later

theorem attachAll (clear : Clear ring holes) : ∃ whole, Bridged ring holes whole ∧ Joined s ring holes whole := by
  induction holes generalizing ring with
  | nil => exact ⟨ring, .done, around.filled, by simp, by simp, fun _ => id, by simp⟩
  | cons hole rest ih =>
    obtain ⟨n, r⟩ := hole
    obtain ⟨h, m, rfl, least, later⟩ := orderedLeast ordered
    obtain ⟨i, a, t, b, found, corner, free, outer⟩ := bridgeFirst around
    obtain ⟨fair, clear'⟩ := clear h i a t b rfl found corner
    obtain ⟨around', a', b', c, d, rs, ks, join⟩ := fairJoined around least fair corner free
    obtain ⟨whole, bridged, joined⟩ := ih around' later clear'
    have old {e} (edge : e ∈ edges (ring.map (Node.spot s)) ∨ e ∈ edges ((h :: m).map (Node.spot s))) :=
      joined.outer ((Plane.joinEdge join).mpr (Or.inr (Or.inr edge)))
    have place : ring[i]? = some t := by
      conv_lhs => rw [← triplesMiddle ring]
      rw [List.getElem?_map, corner]
      rfl
    refine ⟨whole, .next found place outer (fairAside around least fair) bridged, joined.filled, ?_, fun z => ?_,
      fun e edge => old (Or.inl edge), List.forall_mem_cons.mpr ⟨fun e edge => old (Or.inr edge), joined.inner⟩⟩
    · have size := (Plane.joinMembers join).length_eq
      simp only [List.length_map, List.length_cons, List.length_append] at size
      rw [joined.size, size, List.map_cons, List.sum_cons, List.length_cons]
      omega
    · rw [joined.turning, Plane.joinTurning join, add_assoc]
      rfl

end Run

end SceneStream.Geometry
