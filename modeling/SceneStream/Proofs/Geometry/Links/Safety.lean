import SceneStream.Proofs.Geometry.Bounds
import SceneStream.Proofs.Geometry.Links.History

/-! Triangulation that changes links is the triangulation of lists: it never looks outside of the store, every walk
comes back, and it gives the same triangles or the same fault. -/
namespace SceneStream.Geometry.Links
variable {α : Type} [Scalar α] {loops : List (Ring α)} {x : Run α} {rest : List (Chain α)}

theorem bridgeInside {eps : α} {h : Node α} {r : Ring α} {i : Nat} (found : Ring.bridge? eps h r = some i) :
    i < r.length := by
  obtain ⟨t, place, -⟩ := Ring.bridgeChosen found
  exact (List.getElem?_eq_some_iff.mp place).1

theorem attachHeld (eps : α) (hs : List (Nat × Chain α)) (full : ∀ h ∈ hs, h.2 ≠ []) {a : Node α × Nat} {l : Chain α}
    (history : History loops x ((a :: l) :: hs.map (·.2) ++ rest)) :
    (∃ y b m left, attach eps (starting hs) x a.2 = some (.ok b.2, y) ∧
      (ringing hs).foldlM (Triangulation.attach eps) (ring (a :: l)) = .ok (ring (b :: m)) ∧
      History loops y ((b :: m) :: left)) ∨
    ∃ y f left, attach eps (starting hs) x a.2 = some (.error f, y) ∧
      (ringing hs).foldlM (Triangulation.attach eps) (ring (a :: l)) = .error f ∧ History loops y left := by
  induction hs generalizing x a l with
  | nil => exact .inl ⟨x, a, l, rest, rfl, rfl, history⟩
  | cons h hs ih =>
    obtain ⟨i, c⟩ := h
    rw [List.forall_mem_cons] at full
    obtain ⟨b, m, rfl⟩ := List.exists_cons_of_ne_nil full.1
    have step : starting ((i, b :: m) :: hs) = (i, b.2) :: starting hs := rfl
    have first : ringing ((i, b :: m) :: hs) = (i, b.1 :: ring m) :: ringing hs := rfl
    obtain ⟨along, apart⟩ := heldAlong (historyHeld history)
    obtain ⟨holeAlong, -⟩ := heldAlong (heldPerm (historyHeld history) (.swap ..))
    have bridge := bridgeReads along apart eps (holeAlong.nodes b (List.mem_cons_self ..))
    cases found : Ring.bridge? eps b.1 (ring (a :: l)) with
    | none =>
      rw [found] at bridge
      refine .inr ⟨x, .noBridge i, _, ?_, ?_, history⟩
      · simp only [step, attach, bridge, Option.bind_eq_bind, Option.bind_some, Option.map_none]
        rfl
      · simp only [first, List.foldlM_cons, Triangulation.attach, found]
        rfl
    | some j =>
      obtain ⟨e, k, begun, place, started⟩ := rotatePlace (c := a :: l) (by simpa [ring] using bridgeInside found)
      obtain ⟨y, done, p, q, later⟩ := joinDone (.begun history ⟨j, begun⟩)
      have joined : Ring.join (ring (a :: l)) j (b.1 :: ring m) =
          ring (e :: b :: m ++ (b.1, p) :: (e.1, q) :: k) := by
        unfold Ring.join
        rw [started]
        simp [ring]
      rw [found, Option.map_some, place] at bridge
      have rest := ih full.2 later
      rw [step, first]
      simp only [attach, bridge, done, List.foldlM_cons, Triangulation.attach, found, joined,
        Option.bind_eq_bind, Option.bind_some]
      exact rest

theorem earInside {eps : α} {r : Ring α} {i : Nat} (found : Ring.ear? eps (Ring.corners r) = some i) :
    i < r.length := by
  obtain ⟨c, place, -⟩ := Ring.earChosen found
  have inside := (List.getElem?_eq_some_iff.mp place).1
  simpa [Ring.corners, Ring.startLength] using inside

theorem flatInside {eps : α} {r : Ring α} {i : Nat} (found : Ring.flat? eps (Ring.corners r) = some i) :
    i < r.length := by
  have inside := (List.findIdx?_eq_some_iff_getElem.mp found).1
  simpa [Ring.corners, Ring.startLength] using inside

theorem lastReads {a : Node α × Nat} {l : Chain α} (along : Along x.links (a :: l)) (eps : α) :
    clip eps 0 x a.2 = some (Ring.clip eps 0 (ring (a :: l)), x) := by
  obtain ⟨t, ts, first⟩ : ∃ t ts, triples (a :: l) = t :: ts := by
    rw [triplesCons]
    obtain ⟨n, m, -, path⟩ := turnsNext ((a :: l).getLast (List.cons_ne_nil a l)) a l a
    exact ⟨_, _, path⟩
  have mem : t ∈ triples (a :: l) := first ▸ List.mem_cons_self ..
  have middle : t.2.1 = a := by
    have places := triplesMiddle (a :: l)
    rw [first, List.map_cons] at places
    exact (List.cons.inj places).1
  have link := alongLink along mem
  rw [middle] at link
  simp only [clip, link, cornerReads along mem, Option.bind_eq_bind, Option.bind_some, Ring.clip,
    Ring.lastTriangle, cornersOf, first, List.map_cons]
  rfl

theorem clipHeld (eps : α) (n : Nat) {a : Node α × Nat} {l : Chain α} (long : (a :: l).length = n + 3)
    (history : History loops x ((a :: l) :: rest)) :
    ∃ y left, clip eps n x a.2 = some (Ring.clip eps n (ring (a :: l)), y) ∧ History loops y left := by
  induction n generalizing x a l with
  | zero => exact ⟨x, _, lastReads (heldAlong (historyHeld history)).1 eps, history⟩
  | succ n ih =>
    obtain ⟨along, apart⟩ := heldAlong (historyHeld history)
    have ear := earReads along apart (by omega) eps
    have flat := flatReads along apart eps
    have more : l ≠ [] := by
      rintro rfl
      simp at long
    have cut {i : Nat} (inside : i < (ring (a :: l)).length) := cutDone (by simpa [ring] using inside) more history
    have rest {i : Nat} (inside : i < (ring (a :: l)).length) {b : Node α × Nat} {m : Chain α}
        (same : (ring (a :: l)).eraseIdx i = ring (b :: m)) : (b :: m).length = n + 3 := by
      have size := congrArg List.length same
      rw [List.length_eraseIdx, if_pos inside] at size
      simp only [ring, List.length_map] at size
      omega
    cases found : Ring.ear? eps (Ring.corners (ring (a :: l))) with
    | some i =>
      have inside := earInside found
      obtain ⟨t, y, b, m, here, link, done, start, same, later⟩ := cut inside
      obtain ⟨z, left, more, last⟩ := ih (rest inside same) later
      have corner := cornerReads along (List.mem_of_getElem? here)
      have triangle : (Ring.corners (ring (a :: l)))[i]? = some (cornerOf t) := by simp [cornersOf, here]
      rw [found, Option.map_some] at ear
      refine ⟨z, left, ?_, last⟩
      simp only [clip, ear, link, corner, done, start, more, Ring.clip, found, same, triangle,
        Option.bind_eq_bind, Option.bind_some, Option.map_some, Option.toList_some]
      rfl
    | none =>
      rw [found, Option.map_none] at ear
      cases level : Ring.flat? eps (Ring.corners (ring (a :: l))) with
      | some i =>
        have inside := flatInside level
        obtain ⟨t, y, b, m, here, link, done, start, same, later⟩ := cut inside
        obtain ⟨z, left, more, last⟩ := ih (rest inside same) later
        rw [level, Option.map_some] at flat
        refine ⟨z, left, ?_, last⟩
        simp only [clip, ear, flat, link, done, start, more, Ring.clip, found, level, same,
          Option.bind_eq_bind, Option.bind_some]
      | none =>
        rw [level, Option.map_none] at flat
        have size : (ring (a :: l)).length = n + 4 := by simpa [ring] using long
        refine ⟨x, _, ?_, history⟩
        simp only [clip, ear, flat, Ring.clip, found, level, size, Option.bind_eq_bind, Option.bind_some]
        rfl

theorem sortHeld (hs : List (Nat × Chain α)) (full : ∀ h ∈ hs, h.2 ≠ []) {outer : Chain α}
    (history : History loops x (outer :: hs.map (·.2) ++ rest)) : ∃ placed sorted,
    ((starting hs).mapM fun h => do return (h, (← x.links[h.2]?).node)) = some placed ∧
      (placed.mergeSort fun a b => before a.2 b.2).map (·.1) = starting sorted ∧
      (ringing hs).mergeSort Triangulation.before = ringing sorted ∧ (∀ h ∈ sorted, h.2 ≠ []) ∧
      History loops x (outer :: sorted.map (·.2) ++ rest) := by
  obtain ⟨ks, rfl⟩ := splitFull hs full
  let earlier (k j : Nat × (Node α × Nat) × Chain α) : Bool := before k.2.1.1 j.2.1.1
  have order := List.mergeSort_perm ks earlier
  refine ⟨ks.map fun k => ((k.1, k.2.1.2), k.2.1.1), (ks.mergeSort earlier).map unsplit, ?_, ?_, ?_, ?_, ?_⟩
  · rw [starting, List.map_map]
    refine Outcome.mapsAll ks fun k mem => ?_
    have ring : k.2.1 :: k.2.2 ∈ outer :: (ks.map unsplit).map (·.2) ++ rest := by
      refine List.mem_cons_of_mem _ (List.mem_append_left _ ?_)
      rw [List.map_map]
      exact List.mem_map_of_mem (f := (·.2) ∘ unsplit) mem
    obtain ⟨j, found, node⟩ := memberLink ((historyHeld history).along _ ring) (List.mem_cons_self ..)
    simp [unsplit, start, found, node]
  · have sorted := List.map_mergeSort (r := earlier) (s := fun a b => before a.2 b.2)
      (f := fun k => ((k.1, k.2.1.2), k.2.1.1)) (l := ks) (fun _ _ _ _ => rfl)
    rw [← sorted, List.map_map]
    simp [starting, unsplit, start, Function.comp_def]
  · have sorted := List.map_mergeSort (r := earlier) (s := Triangulation.before)
      (f := fun k => (k.1, ring (k.2.1 :: k.2.2))) (l := ks) (fun _ _ _ _ => rfl)
    simp only [ringing, List.map_map]
    exact sorted.symm
  · intro h mem
    obtain ⟨k, -, rfl⟩ := List.mem_map.mp mem
    exact List.cons_ne_nil k.2.1 k.2.2
  · exact .order history (.append_right _ (.cons _ ((order.symm.map _).map _)))

theorem ofStartsHeld (eps : α) {a : Node α × Nat} {l : Chain α} (hs : List (Nat × Chain α))
    (full : ∀ h ∈ hs, h.2 ≠ []) (history : History loops x ((a :: l) :: hs.map (·.2))) : ∃ y left,
    ofStarts eps x a.2 (starting hs) = some (Triangulation.ofRings eps (ring (a :: l)) (ringing hs), y) ∧
      History loops y left := by
  obtain ⟨y, d, m, outer, left, -, history⟩ := distinctHeld (historyTracks loops) eps history
  have kept := distinctRing eps left
  unfold ofStarts Triangulation.ofRings
  simp only [outer, kept, Option.bind_eq_bind, Option.bind_some]
  by_cases long : 3 ≤ (d :: m).length
  · simp only [long, if_true]
    obtain ⟨along, apart⟩ := heldAlong (historyHeld history)
    simp only [areaReads along apart, Option.bind_some]
    by_cases small : Ring.area (ring (d :: m)) ≤ eps
    · simp only [small, if_true]
      exact ⟨y, _, rfl, history⟩
    · simp only [small, if_false]
      obtain ⟨z, found, left, taken, filtered, full, history⟩ := holesHeld eps hs full
        (show History loops y ((d :: m) :: hs.map (·.2) ++ []) by simpa using history)
      obtain ⟨placed, sorted, nodes, order, listed, full, history⟩ := sortHeld found full history
      simp only [Option.bind_eq_bind] at nodes
      dsimp only at filtered
      simp only [taken, nodes, order, filtered, listed, Option.bind_some]
      rcases attachHeld eps sorted full history with ⟨w, b, k, more, done, joined, history⟩ |
        ⟨w, f, more, done, joined, history⟩
      · have size : (ring (d :: m)).length ≤ (ring (b :: k)).length := (Triangulation.attachLength joined).1
        have enough : (b :: k).length = (b :: k).length - 3 + 3 := by
          simp only [ring, List.length_map] at size
          omega
        obtain ⟨v, left, cut, last⟩ := clipHeld eps _ enough history
        obtain ⟨along, apart⟩ := heldAlong (historyHeld history)
        have total : (ring (b :: k)).length = (b :: k).length := List.length_map ..
        refine ⟨v, left, ?_, last⟩
        simp only [done, joined, countReads along apart, cut, Option.bind_some]
        rw [← total]
        cases clipped : Ring.clip eps ((ring (b :: k)).length - 3) (ring (b :: k)) with
        | error left => simp only [Except.bind, bind, clipped]; rfl
        | ok ts => cases ts <;> simp only [Except.bind, bind, clipped] <;> rfl
      · simp only [done, joined, Option.bind_some]
        exact ⟨w, _, rfl, history⟩
  · simp only [long, if_false]
    exact ⟨y, _, rfl, history⟩

end Links

/-- Whatever the points are, the sizes of loops and the tolerance: no step of the triangulation looks outside of
the store of its links, no walk goes on for ever, rings stay closed chains on the way, and the triangles there are
at the end are bounded. -/
theorem triangulationIsSafe {α : Type} [Scalar α] (eps : α) (points : List (Vec α)) (sizes : List Nat) :
    ∃ x loops rings, triangulateLinks eps points sizes = some (triangulate eps points sizes, x) ∧
      (loops = [] ∨ loops = Triangulation.pieces sizes
        (Triangulation.projected (.of (loopNormal (points.take (sizes.headD 0)))) points)) ∧
      Links.History loops x rings ∧ ∀ ts, triangulate eps points sizes = .ok ts → Bounded eps points sizes ts := by
  suffices safe : ∃ x loops rings, triangulateLinks eps points sizes = some (triangulate eps points sizes, x) ∧
      (loops = [] ∨ loops = Triangulation.pieces sizes
        (Triangulation.projected (.of (loopNormal (points.take (sizes.headD 0)))) points)) ∧
      Links.History loops x rings by
    obtain ⟨x, loops, rings, same, begun, history⟩ := safe
    exact ⟨x, loops, rings, same, begun, history, fun ts done => triangulateBounded done⟩
  have refused : Links.History ([] : List (Ring α)) ⟨[], []⟩ [] := Links.laidOut []
  unfold triangulateLinks triangulate
  dsimp only
  by_cases sum : sizes.sum ≠ points.length
  · rw [if_pos sum, if_pos sum]
    exact ⟨_, [], _, rfl, .inl rfl, refused⟩
  rw [if_neg sum, if_neg sum]
  cases large : sizes.zipIdx.find? (·.1 < 3) with
  | some entry => exact ⟨_, [], _, rfl, .inl rfl, refused⟩
  | none =>
    by_cases infinite : points.any (!·.isFinite)
    · simp only [infinite, if_true]
      exact ⟨_, [], _, rfl, .inl rfl, refused⟩
    simp only [infinite]
    have long : sizes.sum ≤
        (Triangulation.projected (.of (loopNormal (points.take (sizes.headD 0)))) points).length := by
      simp [Triangulation.projected, Decidable.not_not.mp sum]
    have cut := Links.cutPieces long
    have lengths := Triangulation.piecesLength long
    generalize same : Triangulation.pieces sizes
      (Triangulation.projected (.of (loopNormal (points.take (sizes.headD 0)))) points) = loops at cut lengths ⊢
    unfold Triangulation.projected at cut same
    simp only [cut, same, Option.bind_eq_bind, Option.bind_some]
    cases loops with
    | nil => exact ⟨_, [], _, rfl, .inl rfl, refused⟩
    | cons outer holes =>
      have full : ∀ r ∈ outer :: holes, r ≠ [] := by
        rintro r mem rfl
        have zero : 0 ∈ sizes := lengths ▸ List.mem_map_of_mem (f := List.length) mem
        have three := Triangulation.sizesLarge large 0 zero
        omega
      rw [List.forall_mem_cons] at full
      obtain ⟨a, r, rfl⟩ := List.exists_cons_of_ne_nil full.1
      obtain ⟨hs, places, begun, ringed, chained⟩ := Links.startingChains (a :: r).length 1 holes full.2
      simp only [Links.starts, Nat.zero_add]
      by_cases flat : (loopNormal (points.take (sizes.headD 0))).length ≤ eps
      · simp only [flat, if_true]
        exact ⟨_, [], _, rfl, .inl rfl, refused⟩
      · have history := Links.laidOut ((a :: r) :: holes)
        rw [Links.chains, Nat.zero_add, ← places, List.zipIdx_cons, Nat.zero_add] at history
        obtain ⟨y, left, done, history⟩ := Links.ofStartsHeld eps hs chained history
        have whole : Links.ring ((a, 0) :: r.zipIdx 1) = a :: r := Links.zipRing (a :: r) 0
        rw [whole, ← begun, ← ringed] at done
        simp only [flat, if_false]
        exact ⟨y, _, left, done, .inr rfl, history⟩

end SceneStream.Geometry
