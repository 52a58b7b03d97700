import SceneStream.Proofs.Geometry.Links.Read

/-! What becomes of the loops of a polygon while links are changed: every ring of them stays one closed chain,
and whatever the list of a ring is changed to, its links are changed to. -/
namespace SceneStream.Geometry.Links
variable {α : Type}

def chains : Nat → List (Ring α) → List (Chain α)
  | _, [] => []
  | p, r :: rest => r.zipIdx p :: chains (p + r.length) rest

/-- Runs over links, with the rings that they hold at the end. A run begins with loops that are laid out; then
a vertex is taken out of a ring, a ring is turned, or one ring is made of two, which has all members of both and
copies of the ends of the bridge. It does not matter where a ring begins and how rings are ordered. -/
inductive History (loops : List (Ring α)) : Run α → List (Chain α) → Prop where
  | laid (held : Held (layOut [] loops) (chains 0 loops)) : History loops ⟨layOut [] loops, []⟩ (chains 0 loops)
  | order {x rings later} (before : History loops x rings) (order : rings.Perm later) : History loops x later
  | begun {x c l rest} (before : History loops x (c :: rest)) (turned : c ~r l) : History loops x (l :: rest)
  | drop {x b l rest ls} (before : History loops x ((b :: l) :: rest)) (done : x.links.unlink b.2 = some ls)
      (held : Held ls (l :: rest)) : History loops ⟨ls, x.moves ++ [.drop b.2]⟩ (l :: rest)
  | turn {x b l rest ls} (before : History loops x ((b :: l) :: rest)) (done : x.links.turn b.2 = some ls)
      (held : Held ls ((b :: l.reverse) :: rest)) :
      History loops ⟨ls, x.moves ++ [.turn b.2]⟩ ((b :: l.reverse) :: rest)
  | join {x a b l m rest ls} (before : History loops x ((a :: l) :: (b :: m) :: rest))
      (done : x.links.join a.2 b.2 = some ls)
      (held : Held ls
        ((a :: b :: m ++ (b.1, x.links.length + 1) :: (a.1, x.links.length) :: l) :: rest)) :
      History loops ⟨ls, x.moves ++ [.join a.2 b.2]⟩
        ((a :: b :: m ++ (b.1, x.links.length + 1) :: (a.1, x.links.length) :: l) :: rest)

variable {loops : List (Ring α)} {x : Run α} {a b : Node α × Nat} {c l m : Chain α} {rest rings : List (Chain α)}

theorem historyHeld (history : History loops x rings) : Held x.links rings := by
  induction history with
  | laid held => exact held
  | order before order ih => exact heldPerm ih order
  | begun before turned ih => exact heldRotate ih turned
  | drop before done held => exact held
  | turn before done held => exact held
  | join before done held => exact held

theorem dropDone (history : History loops x ((b :: l) :: rest)) (more : l ≠ []) :
    ∃ y, x.perform (.drop b.2) = some y ∧ History loops y (l :: rest) := by
  obtain ⟨c, l, rfl⟩ := List.exists_cons_of_ne_nil more
  obtain ⟨ls, done, held⟩ := unlinkHeld (historyHeld history)
  exact ⟨_, by simp [Run.perform, after, done], .drop history done held⟩

theorem turnDone (history : History loops x ((b :: l) :: rest)) :
    ∃ y, x.perform (.turn b.2) = some y ∧ History loops y ((b :: l.reverse) :: rest) := by
  obtain ⟨ls, done, held⟩ := turnHeld (historyHeld history)
  exact ⟨_, by simp [Run.perform, after, done], .turn history done held⟩

theorem joinDone (history : History loops x ((a :: l) :: (b :: m) :: rest)) :
    ∃ y, x.perform (.join a.2 b.2) = some y ∧ ∃ p q,
      History loops y ((a :: b :: m ++ (b.1, p) :: (a.1, q) :: l) :: rest) := by
  obtain ⟨ls, done, held⟩ := joinHeld (historyHeld history)
  exact ⟨_, by simp [Run.perform, after, done], _, _, .join history done held⟩

theorem appendHeld {ls : Links α} (held : Held ls rings) (r : Ring α) :
    Held (ls ++ r.zipIdx.map fun (n, i) =>
      ⟨n, ls.length + (i + r.length - 1) % r.length, ls.length + (i + 1) % r.length⟩) (r.zipIdx ls.length :: rings) := by
  have link {i : Nat} (inside : i < r.length) : (ls ++ r.zipIdx.map fun (n, i) =>
      (⟨n, ls.length + (i + r.length - 1) % r.length, ls.length + (i + 1) % r.length⟩ : Link α))[ls.length + i]? =
      some ⟨r[i], ls.length + (i + r.length - 1) % r.length, ls.length + (i + 1) % r.length⟩ := by
    rw [List.getElem?_append_right (by omega), Nat.add_sub_cancel_left]
    simp [inside]
  refine heldReplace [] held ⟨fun a mem => ?_, fun e mem => ?_⟩ ?_ ?_ ?_
  · obtain ⟨i, inside, rfl⟩ := List.getElem_of_mem mem
    simp only [List.length_zipIdx] at inside
    simp [nodeAt, link inside]
  · rw [edgesZip] at mem
    obtain ⟨i, inside, rfl⟩ := List.getElem_of_mem mem
    simp only [List.length_zip, List.length_rotate, List.length_zipIdx, Nat.min_self] at inside
    simp only [Linked, List.getElem_zip, List.getElem_rotate, List.getElem_zipIdx, List.length_zipIdx, nextAt, prevAt]
    rw [link inside, link (Nat.mod_lt _ (by omega))]
    have back : ((i + 1) % r.length + r.length - 1) % r.length = i := by
      rcases Nat.lt_or_eq_of_le inside with more | last
      · rw [Nat.mod_eq_of_lt more, Nat.succ_add_sub_one, Nat.add_mod_right, Nat.mod_eq_of_lt inside]
      · have last : i + 1 = r.length := last
        rw [last, Nat.mod_self, Nat.zero_add, Nat.mod_eq_of_lt (by omega)]
        omega
    simp [back]
  · rw [List.zipIdx_map_snd]
    exact List.nodup_range'
  · intro a mem
    obtain ⟨i, inside, rfl⟩ := List.getElem_of_mem mem
    exact .inr (by simp)
  · intro p inside _
    constructor <;> simp [nodeAt, nextAt, prevAt, List.getElem?_append_left inside]

theorem layOutHeld {ls : Links α} (held : Held ls rings) (loops : List (Ring α)) :
    ∃ later, later.Perm (rings ++ chains ls.length loops) ∧ Held (layOut ls loops) later := by
  induction loops generalizing ls rings with
  | nil => exact ⟨rings, by simp [chains], held⟩
  | cons r loops ih =>
    obtain ⟨later, order, done⟩ := ih (appendHeld held r)
    refine ⟨later, order.trans ?_, done⟩
    rw [List.length_append, List.length_map, List.length_zipIdx]
    exact List.perm_middle.symm

theorem laidOut (loops : List (Ring α)) : History loops ⟨layOut [] loops, []⟩ (chains 0 loops) := by
  have empty : Held ([] : Links α) [] := ⟨List.nodup_nil, nofun⟩
  obtain ⟨later, order, held⟩ := layOutHeld empty loops
  exact .laid (heldPerm held order)

theorem nextLink {ls : Links α} (along : Along ls c) (edge : (a, b) ∈ edges c) :
    ∃ k, ls[a.2]? = some k ∧ k.node = a.1 ∧ k.next = b.2 := by
  obtain ⟨k, found, node⟩ := memberLink along (edgesInside edge).1
  have next := (along.linked _ edge).1
  simp only [nextAt, found, Option.map_some, Option.some.injEq] at next
  exact ⟨k, found, node, next⟩

theorem edgeMiddle {β : Type} (k : List β) (a b : β) (l : List β) : (a, b) ∈ edges (k ++ a :: b :: l) := by
  obtain ⟨s, w, start⟩ := List.exists_cons_of_ne_nil (List.append_ne_nil_of_right_ne_nil k (List.cons_ne_nil a (b :: l)))
  rw [start, edgesCons, ← start, List.append_assoc, List.cons_append, stepsAppend]
  exact List.mem_append_right _ (List.mem_cons_self ..)

theorem cutDone {i : Nat} {a : Node α × Nat} {l : Chain α} (inside : i < (a :: l).length) (more : l ≠ [])
    (history : History loops x ((a :: l) :: rest)) :
    ∃ t y b m, (triples (a :: l))[i]? = some t ∧ x.links[place (a :: l) i]? = some (linkOf t) ∧
      x.perform (.drop (place (a :: l) i)) = some y ∧
      (if place (a :: l) i = a.2 then (linkOf t).next else a.2) = b.2 ∧
      (ring (a :: l)).eraseIdx i = ring (b :: m) ∧ History loops y ((b :: m) :: rest) := by
  obtain ⟨along, apart⟩ := heldAlong (historyHeld history)
  have short : i < (triples (a :: l)).length := by simpa [triplesZip] using inside
  have here : (triples (a :: l))[i]? = some (triples (a :: l))[i] := List.getElem?_eq_getElem short
  have place' := placeOf (List.mem_zipIdx_iff_getElem?.mpr here)
  have link := place' ▸ alongLink along (List.mem_of_getElem? here)
  refine ⟨(triples (a :: l))[i], ?_⟩
  cases i with
  | zero =>
    obtain ⟨q, l, rfl⟩ := List.exists_cons_of_ne_nil more
    obtain ⟨y, done, later⟩ := dropDone history (List.cons_ne_nil q l)
    have edge : (triples (a :: q :: l))[0].2 = (a, q) := by
      have first := congrArg (·[0]?) (triplesAfter (a :: q :: l))
      simpa only [List.getElem?_map, here, Option.map_some, edges, List.cons_append, List.zip_cons_cons,
        List.getElem?_cons_zero, Option.some.injEq] using first
    refine ⟨y, q, l, here, link, done, ?_, rfl, later⟩
    rw [show place (a :: q :: l) 0 = a.2 from rfl, if_pos rfl, linkOf, edge]
  | succ j =>
    have inner : j < l.length := Nat.lt_of_succ_lt_succ inside
    have split : l = l.take j ++ l[j] :: l.drop (j + 1) := by simp
    have turned : a :: l ~r l[j] :: (l.drop (j + 1) ++ a :: l.take j) := by
      have pieces : a :: l = a :: l.take j ++ l[j] :: l.drop (j + 1) := congrArg (a :: ·) split
      rw [pieces]
      exact List.isRotated_append
    have at' : place (a :: l) (j + 1) = l[j].2 := by simp [place, List.getD, inner]
    obtain ⟨y, done, later⟩ := dropDone (.begun history turned) (by simp)
    refine ⟨y, a, l.take j ++ l.drop (j + 1), here, link, at' ▸ done, ?_, ?_, .begun later List.isRotated_append⟩
    · rw [at', if_neg (placeApart apart (List.getElem_mem inner))]
    · simp [ring, List.eraseIdx_eq_take_drop_succ]

def start : Chain α → Nat
  | [] => 0
  | a :: _ => a.2

def starting (hs : List (Nat × Chain α)) : List (Nat × Nat) := hs.map fun h => (h.1, start h.2)

def ringing (hs : List (Nat × Chain α)) : List (Nat × Ring α) := hs.map fun h => (h.1, ring h.2)

def unsplit (k : Nat × (Node α × Nat) × Chain α) : Nat × Chain α := (k.1, k.2.1 :: k.2.2)

theorem splitFull (hs : List (Nat × Chain α)) (full : ∀ h ∈ hs, h.2 ≠ []) :
    ∃ ks : List (Nat × (Node α × Nat) × Chain α), hs = ks.map unsplit := by
  induction hs with
  | nil => exact ⟨[], rfl⟩
  | cons h hs ih =>
    obtain ⟨i, c⟩ := h
    rw [List.forall_mem_cons] at full
    obtain ⟨ks, rfl⟩ := ih full.2
    obtain ⟨b, m, rfl⟩ := List.exists_cons_of_ne_nil full.1
    exact ⟨(i, b, m) :: ks, rfl⟩

theorem cutPieces {β : Type} {sizes : List Nat} {l : List β} (whole : sizes.sum ≤ l.length) :
    cut? sizes l = some (Triangulation.pieces sizes l) := by
  induction sizes generalizing l with
  | nil => rfl
  | cons n sizes ih =>
    rw [List.sum_cons] at whole
    rw [cut?, if_pos (by omega), ih (by rw [List.length_drop]; omega)]
    rfl

theorem zipRing (r : Ring α) (p : Nat) : ring (r.zipIdx p) = r := List.zipIdx_map_fst p r

theorem startingChains (offset i : Nat) (loops : List (Ring α)) (full : ∀ r ∈ loops, r ≠ []) :
    ∃ hs : List (Nat × Chain α), hs.map (·.2) = chains offset loops ∧
      ((starts offset loops).zipIdx i).map (fun (s, i) => (i, s)) = starting hs ∧
      ((loops.zipIdx i).map fun (r, i) => (i, r)) = ringing hs ∧ ∀ h ∈ hs, h.2 ≠ [] := by
  induction loops generalizing offset i with
  | nil => exact ⟨[], rfl, rfl, rfl, nofun⟩
  | cons r loops ih =>
    rw [List.forall_mem_cons] at full
    obtain ⟨hs, places, begun, same, others⟩ := ih (offset + r.length) (i + 1) full.2
    obtain ⟨a, r, rfl⟩ := List.exists_cons_of_ne_nil full.1
    refine ⟨(i, (a :: r).zipIdx offset) :: hs, ?_, ?_, ?_, ?_⟩
    · rw [List.map_cons, places, chains]
    · rw [starts, List.zipIdx_cons, List.map_cons, begun]
      rfl
    · rw [List.zipIdx_cons, List.map_cons, same, ringing, ringing, List.map_cons, zipRing]
    · exact List.forall_mem_cons.mpr ⟨by simp, others⟩

/-- What is known of the rings of a run, and stays known when one begins elsewhere or loses a vertex. -/
structure Tracks (knows : Run α → List (Chain α) → Prop) : Prop where
  held : ∀ {x rings}, knows x rings → Held x.links rings
  begun : ∀ {x c l rest}, knows x (c :: rest) → c ~r l → knows x (l :: rest)
  drop : ∀ {x b l rest}, knows x ((b :: l) :: rest) → l ≠ [] →
    ∃ y, x.perform (.drop b.2) = some y ∧ knows y (l :: rest)

theorem historyTracks (loops : List (Ring α)) : Tracks (History loops) := ⟨historyHeld, .begun, dropDone⟩

theorem heldTracks : Tracks fun (x : Run α) rings => Held x.links rings where
  held now := now
  begun := heldRotate
  drop {x b _ _} now more := by
    obtain ⟨c, l, rfl⟩ := List.exists_cons_of_ne_nil more
    obtain ⟨ls, done, held⟩ := unlinkHeld now
    exact ⟨⟨ls, x.moves ++ [.drop b.2]⟩, by simp [Run.perform, after, done], held⟩

variable {knows : Run α → List (Chain α) → Prop}

variable [Scalar α]

theorem distinctClosing (tracks : Tracks knows) (eps : α) (k : Chain α) (a s : Node α × Nat) (w : Chain α)
    (start : k ++ [a] = s :: w) (now : knows x ((k ++ [a]) :: rest)) :
    ∃ y b m, distinctFrom eps x s.2 a.2 k.length (k.length + 1) = some (y, b.2, (b :: m).length) ∧
      ring (b :: m) = Ring.close eps (ring k ++ [a.1]) ∧
      (∃ c, c ~r b :: m ∧ c.Sublist (k ++ [a])) ∧ knows y ((b :: m) :: rest) := by
  obtain ⟨along, -⟩ := heldAlong (tracks.held now)
  obtain ⟨j, found, node, next⟩ := nextLink along (edgeLast start)
  obtain ⟨i, first, known⟩ := memberLink along (start ▸ List.mem_cons_self ..)
  rw [distinctFrom, if_pos (by omega)]
  simp only [found, next, first, node, known, Option.bind_eq_bind, Option.bind_some]
  cases k with
  | nil =>
    obtain ⟨rfl, rfl⟩ : a = s ∧ w = [] := by simpa [eq_comm] using start
    refine ⟨x, a, [], ?_, rfl, ⟨_, .refl _, .refl _⟩, now⟩
    rw [if_neg (by simp), distinctFrom, if_neg (by simp)]
    rfl
  | cons t k =>
    obtain ⟨rfl, rfl⟩ : t = s ∧ k ++ [a] = w := by simpa using start
    have closing : Ring.close eps (ring (t :: k) ++ [a.1]) =
        if a.1.same eps t.1 then a.1 :: ring k else t.1 :: (ring k ++ [a.1]) := by
      simp [Ring.close, ring]
    by_cases same : a.1.same eps t.1
    · obtain ⟨y, done, later⟩ := tracks.drop now (by simp)
      refine ⟨y, a, k, ?_, ?_, ⟨_, List.isRotated_append, List.sublist_cons_self ..⟩,
        tracks.begun later List.isRotated_append⟩
      · rw [if_pos ⟨by simp, same⟩]
        simp only [done, Option.bind_some, if_true]
        rw [distinctFrom, if_neg (by simp)]
        simp
      · rw [closing, if_pos same]
        rfl
    · refine ⟨x, t, k ++ [a], ?_, ?_, ⟨_, .refl _, .refl _⟩, now⟩
      · rw [if_neg (by simp [same]), distinctFrom, if_neg (by simp)]
        simp
      · rw [closing, if_neg same]
        simp [ring]

/-- Dropping what is the same does to the links what it does to the list; `k` was looked at already. What is
left is part of the chain, begun at another member perhaps. -/
theorem distinctFromHeld (tracks : Tracks knows) (eps : α) (l k : Chain α) (a s : Node α × Nat) (w : Chain α)
    (start : k ++ [a] = s :: w) (now : knows x ((k ++ a :: l) :: rest)) :
    ∃ y b m, distinctFrom eps x s.2 a.2 k.length (k.length + 1 + l.length) = some (y, b.2, (b :: m).length) ∧
      ring (b :: m) = Ring.close eps (ring k ++ Ring.collapse eps a.1 (ring l)) ∧
      (∃ c, c ~r b :: m ∧ c.Sublist (k ++ a :: l)) ∧ knows y ((b :: m) :: rest) := by
  induction l generalizing k a s w x with
  | nil => exact distinctClosing tracks eps k a s w start now
  | cons b l ih =>
    obtain ⟨along, apart⟩ := heldAlong (tracks.held now)
    obtain ⟨j, found, node, next⟩ := nextLink along (edgeMiddle k a b l)
    obtain ⟨i, second, known⟩ := memberLink along (List.mem_append_right k (List.mem_cons_of_mem a (List.mem_cons_self ..)))
    rw [distinctFrom, if_pos (by omega)]
    simp only [found, next, second, node, known, Option.bind_eq_bind, Option.bind_some]
    have more : ring (b :: l) = b.1 :: ring l := rfl
    rw [more, Ring.collapse]
    by_cases same : a.1.same eps b.1
    · have turned : k ++ a :: b :: l ~r b :: (l ++ (k ++ [a])) := by
        have cut : k ++ [a] ++ b :: l ~r b :: l ++ (k ++ [a]) := List.isRotated_append
        simpa using cut
      obtain ⟨y, done, later⟩ := tracks.drop (tracks.begun now turned) (by simp)
      have again : l ++ (k ++ [a]) ~r k ++ a :: l := by
        have cut : l ++ (k ++ [a]) ~r k ++ [a] ++ l := List.isRotated_append
        simpa using cut
      have notStart : b.2 ≠ s.2 := by
        have first : s ∈ k ++ [a] := start ▸ List.mem_cons_self ..
        have order : ((b :: (l ++ (k ++ [a]))).map (·.2)).Nodup := (turned.perm.map _).nodup_iff.mp apart
        exact (placeApart order (List.mem_append_right l first)).symm
      rw [if_pos ⟨by simp only [List.length_cons]; omega, same⟩, if_pos same]
      simp only [done, Option.bind_some, notStart, if_false]
      obtain ⟨z, d, m, more, closed, ⟨c, turned, part⟩, now⟩ := ih k a s w start (tracks.begun later again)
      have fewer : (k ++ a :: l).Sublist (k ++ a :: b :: l) :=
        ((List.sublist_cons_self b l).cons_cons a).append_left k
      exact ⟨z, d, m, more, closed, ⟨c, turned, part.trans fewer⟩, now⟩
    · rw [if_neg (by simp [same]), if_neg same]
      have step := ih (k ++ [a]) b s (w ++ [b]) (by rw [start]; rfl) (by simpa using now)
      have total : (k ++ [a]).length + 1 + l.length = k.length + 1 + (l.length + 1) := by
        simp only [List.length_append, List.length_singleton]
        omega
      rw [total] at step
      simpa [ring] using step

theorem distinctHeld (tracks : Tracks knows) (eps : α) (now : knows x ((b :: l) :: rest)) : ∃ y d m,
    Links.distinct? eps x b.2 = some (y, if 3 ≤ (d :: m).length then some d.2 else none) ∧
      ring (d :: m) = Ring.close eps (Ring.collapse eps b.1 (ring l)) ∧
      (∃ c, c ~r d :: m ∧ c.Sublist (b :: l)) ∧ knows y ((d :: m) :: rest) := by
  obtain ⟨along, apart⟩ := heldAlong (tracks.held now)
  obtain ⟨y, d, m, done, same, part, later⟩ := distinctFromHeld tracks eps l [] b b [] rfl now
  refine ⟨y, d, m, ?_, same, part, later⟩
  have total : (b :: l).length = ([] : Chain α).length + 1 + l.length := by
    simp only [List.length_cons, List.length_nil]
    omega
  simp only [Links.distinct?, countReads along apart, Option.bind_eq_bind, Option.bind_some]
  rw [total]
  change (distinctFrom eps x b.2 b.2 ([] : Chain α).length _).bind _ = _
  rw [done]
  rfl

theorem distinctRing (eps : α) {d : Node α × Nat} {m : Chain α}
    (same : ring (d :: m) = Ring.close eps (Ring.collapse eps b.1 (ring l))) :
    Ring.distinct? eps (ring (b :: l)) = if 3 ≤ (d :: m).length then some (ring (d :: m)) else none := by
  have more : ring (b :: l) = b.1 :: ring l := rfl
  simp only [more, Ring.distinct?, ← same]
  simp [ring]

theorem leftmostInside (a : Node α) (r : Ring α) : Ring.leftmost (a :: r) < (a :: r).length := by
  refine List.foldlRecOn (motive := fun best : Node α × Nat => best.2 < (a :: r).length) (r.zipIdx 1) _
    (Nat.zero_lt_succ _) fun best known x mem => ?_
  have inside := (List.mem_zipIdx mem).2.1
  change (if Ring.isLeftOf x.1 best.1 then (x.1, x.2) else (best.1, best.2)).2 < _
  split
  · rw [List.length_cons]
    omega
  · exact known

theorem holeHeld (eps : α) (history : History loops x ((b :: l) :: rest)) :
    (∃ y c, Links.hole? eps x b.2 = some (y, none) ∧ Triangulation.hole? eps (ring (b :: l)) = none ∧
      History loops y (c :: rest)) ∨
    ∃ y d m, Links.hole? eps x b.2 = some (y, some d.2) ∧
      Triangulation.hole? eps (ring (b :: l)) = some (ring (d :: m)) ∧ History loops y ((d :: m) :: rest) := by
  obtain ⟨y, d, m, done, left, -, history⟩ := distinctHeld (historyTracks loops) eps history
  have same := distinctRing eps left
  obtain ⟨along, apart⟩ := heldAlong (historyHeld history)
  have area := areaReads along apart
  by_cases long : 3 ≤ (d :: m).length
  · rw [if_pos long] at done same
    by_cases flat : Scalar.abs (Ring.area (ring (d :: m))) ≤ eps
    · refine .inl ⟨y, d :: m, ?_, ?_, history⟩
      · simp only [Links.hole?, done, area, Option.bind_eq_bind, Option.bind_some, flat, if_true]
        rfl
      · simp only [Triangulation.hole?, same, Option.bind_eq_bind, Option.bind_some, flat, if_true]
    · obtain ⟨z, k, turned, reversed, history⟩ : ∃ z k,
          (∀ next : Run α → Option (Run α × Option Nat),
            (if 0 < Ring.area (ring (d :: m)) then (y.perform (.turn d.2)).bind next else next y) = next z) ∧
          ring (d :: k) = (if 0 < Ring.area (ring (d :: m)) then Ring.reversed (ring (d :: m)) else ring (d :: m)) ∧
          History loops z ((d :: k) :: rest) := by
        by_cases left : 0 < Ring.area (ring (d :: m))
        · obtain ⟨z, done, history⟩ := turnDone history
          exact ⟨z, m.reverse, fun _ => by rw [if_pos left, done, Option.bind_some],
            by rw [if_pos left]; simp [ring, Ring.reversed], history⟩
        · exact ⟨y, m, fun _ => if_neg left, (if_neg left).symm, history⟩
      obtain ⟨along, apart⟩ := heldAlong (historyHeld history)
      have inside : Ring.leftmost (ring (d :: k)) < (d :: k).length := by
        simpa [ring] using leftmostInside d.1 (k.map (·.1))
      obtain ⟨e, n, begun, place, started⟩ := rotatePlace inside
      refine .inr ⟨z, e, n, ?_, ?_, .begun history ⟨_, begun⟩⟩
      · simp only [Links.hole?, done, area, Option.bind_eq_bind, Option.bind_some, flat, if_false]
        rw [turned, leftmostReads along apart, place]
        rfl
      · simp only [Triangulation.hole?, same, Option.bind_eq_bind, Option.bind_some, flat, if_false, ← reversed, started]
  · rw [if_neg long] at done same
    refine .inl ⟨y, d :: m, ?_, ?_, history⟩
    · simp only [Links.hole?, done, Option.bind_eq_bind, Option.bind_some]
      rfl
    · simp only [Triangulation.hole?, same, Option.bind_eq_bind, Option.bind_none]

theorem holesHeld (eps : α) {outer : Chain α} (hs : List (Nat × Chain α)) (full : ∀ h ∈ hs, h.2 ≠ [])
    (history : History loops x (outer :: hs.map (·.2) ++ rest)) : ∃ y found left,
    holes eps (starting hs) x = some (y, starting found) ∧
      (ringing hs).filterMap (fun (i, r) => (Triangulation.hole? eps r).map (i, ·)) = ringing found ∧
      (∀ h ∈ found, h.2 ≠ []) ∧ History loops y (outer :: found.map (·.2) ++ (rest ++ left)) := by
  induction hs generalizing x rest with
  | nil => exact ⟨x, [], [], rfl, rfl, nofun, by simpa using history⟩
  | cons h hs ih =>
    obtain ⟨i, c⟩ := h
    rw [List.forall_mem_cons] at full
    obtain ⟨b, l, rfl⟩ := List.exists_cons_of_ne_nil full.1
    have step : starting ((i, b :: l) :: hs) = (i, b.2) :: starting hs := rfl
    have first : History loops x ((b :: l) :: (outer :: hs.map (·.2) ++ rest)) := .order history (.swap ..)
    rcases holeHeld eps first with ⟨y, c, done, same, history⟩ | ⟨y, d, m, done, same, history⟩
    · have later : History loops y (outer :: hs.map (·.2) ++ c :: rest) := .order history List.perm_middle.symm
      obtain ⟨z, found, left, more, kept, full, history⟩ := ih full.2 later
      refine ⟨z, found, c :: left, ?_, ?_, full, .order history (.append_left _ List.perm_middle.symm)⟩
      · simp only [step, holes, done, more, Option.bind_eq_bind, Option.bind_some]
        rfl
      · simpa [ringing, same] using kept
    · have later : History loops y (outer :: hs.map (·.2) ++ (d :: m) :: rest) :=
        .order history List.perm_middle.symm
      obtain ⟨z, found, left, more, kept, others, history⟩ := ih full.2 later
      refine ⟨z, (i, d :: m) :: found, left, ?_, ?_, ?_, .order history (.cons _ List.perm_middle)⟩
      · simp only [step, holes, done, more, Option.bind_eq_bind, Option.bind_some]
        rfl
      · simpa [ringing, same] using kept
      · exact List.forall_mem_cons.mpr ⟨List.cons_ne_nil d m, others⟩

end SceneStream.Geometry.Links
