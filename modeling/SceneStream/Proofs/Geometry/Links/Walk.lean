import SceneStream.Proofs.Geometry.Links.Chain

/-! Walks around a chain of links end where they began, and what they gather on the way is what the ring of the
same vertices gives when it is a list. -/
namespace SceneStream.Geometry

section
variable {β γ : Type}

theorem foldRelated {δ : Type} (l : List β) (F : γ → δ) {f : γ → β → γ} {g : δ → β → δ}
    (related : ∀ s, ∀ x ∈ l, g (F s) x = F (f s x)) (s : γ) : l.foldl g (F s) = F (l.foldl f s) := by
  induction l generalizing s with
  | nil => rfl
  | cons a l ih =>
    rw [List.foldl_cons, List.foldl_cons, related s a (List.mem_cons_self ..)]
    exact ih (fun s x mem => related s x (List.mem_cons_of_mem _ mem)) (f s a)

theorem turnsNext (a b : β) (l : List β) (z : β) : ∃ n m, l ++ [z] = n :: m ∧
    turns (a :: b :: l ++ [z]) = (a, b, n) :: turns (b :: l ++ [z]) := by
  obtain ⟨n, m, next⟩ := List.exists_cons_of_ne_nil (List.append_ne_nil_of_right_ne_nil l (List.cons_ne_nil z []))
  exact ⟨n, m, next, by simp only [List.cons_append, next, turns]⟩

theorem turnsTail {a b : β} {l : List β} {t : β × β × β} (mem : t ∈ turns (b :: l)) : t ∈ turns (a :: b :: l) := by
  cases l with
  | nil => cases mem
  | cons c l => exact List.mem_cons_of_mem _ mem

theorem turnsMiddle (a : β) (l : List β) (z : β) : (turns (a :: l ++ [z])).map (·.2.1) = l := by
  have long : (l.zip (l.tail ++ [z])).length = l.length := by
    cases l <;> simp
  have inner : ((l.zip (l.tail ++ [z])).map Prod.fst) = l := List.map_fst_zip (by cases l <;> simp)
  have outer : ((a :: l).zip (l.zip (l.tail ++ [z]))).map Prod.snd = l.zip (l.tail ++ [z]) :=
    List.map_snd_zip (by simp [long])
  rw [← outer, List.map_map] at inner
  rw [turnsZip]
  exact inner

theorem foldAll (p : β → Bool) (l : List β) (b : Bool) : l.foldl (fun s t => s && p t) b = (b && l.all p) := by
  induction l generalizing b with
  | nil => simp
  | cons a l ih => simp [ih, Bool.and_assoc]

end

namespace Links
variable {α β : Type} {ls : Links α} {a b : Node α × Nat} {l c : Chain α}

abbrev Triple (α : Type) := (Node α × Nat) × (Node α × Nat) × (Node α × Nat)

def linkOf (t : Triple α) : Link α := ⟨t.2.1.1, t.1.2, t.2.2.2⟩

theorem alongLink (along : Along ls c) {t} (mem : t ∈ triples c) : ls[t.2.1.2]? = some (linkOf t) := by
  have inside := triplesInside mem
  exact linkAt (along.nodes _ (edgesInside inside.1).2) (along.linked _ inside.1).2 (along.linked _ inside.2).1

theorem onwardFolds {start : Node α × Nat} {f : β → Nat → Link α → Option β} {g : β → _ → β}
    (fuel : Nat) (l : Chain α) (a q : Node α × Nat) (k : Chain α) (path : l ++ [start] = q :: k) (long : l.length < fuel)
    (away : ∀ b ∈ l, b.2 ≠ start.2) (links : ∀ t ∈ turns (a :: l ++ [start]), ls[t.2.1.2]? = some (linkOf t))
    (reads : ∀ s, ∀ t ∈ turns (a :: l ++ [start]), f s t.2.1.2 (linkOf t) = some (g s t)) (s : β) :
    ls.onward start.2 f fuel q.2 s = some ((turns (a :: l ++ [start])).foldl g s) := by
  induction l generalizing a q k fuel s with
  | nil =>
    obtain ⟨fuel, rfl⟩ := Nat.exists_eq_add_of_lt long
    obtain ⟨rfl, -⟩ : start = q ∧ _ := by simpa using path
    simp [onward, turns]
  | cons b l ih =>
    obtain ⟨fuel, rfl⟩ := Nat.exists_eq_add_of_lt long
    obtain ⟨rfl, -⟩ : b = q ∧ _ := by simpa using path
    obtain ⟨n, m, next, inner⟩ := turnsNext a b l start
    rw [inner, List.forall_mem_cons] at links
    rw [inner] at reads
    have rest := ih (l.length + 1 + fuel) b n m next (by omega)
      (fun x mem => away x (List.mem_cons_of_mem _ mem)) links.2
      (fun s t mem => reads s t (List.mem_cons_of_mem _ mem)) (g s (a, b, n))
    rw [inner, List.foldl_cons, ← rest]
    have here := reads s (a, b, n) (List.mem_cons_self ..)
    simp only [List.length_cons, onward, away b (List.mem_cons_self ..), if_false, links.1, here,
      Option.bind_eq_bind, Option.bind_some]
    rfl

theorem tailFolds {f : β → Nat → Link α → Option β} {g : β → _ → β} (along : Along ls (b :: l))
    (apart : ((b :: l).map (·.2)).Nodup)
    (reads : ∀ s, ∀ t ∈ turns (b :: l ++ [b]), f s t.2.1.2 (linkOf t) = some (g s t)) :
    ∃ t, triples (b :: l) = t :: turns (b :: l ++ [b]) ∧ t.2.1 = b ∧ ls[b.2]? = some (linkOf t) ∧
      ∀ s, ls.onward b.2 f ls.length (linkOf t).next s = some ((turns (b :: l ++ [b])).foldl g s) := by
  obtain ⟨n, m, next, path⟩ := turnsNext ((b :: l).getLast (List.cons_ne_nil b l)) b l b
  have inner : triples (b :: l) = ((b :: l).getLast (List.cons_ne_nil b l), b, n) :: turns (b :: l ++ [b]) := by
    rw [triplesCons, path]
  have links : ∀ t ∈ triples (b :: l), ls[t.2.1.2]? = some (linkOf t) := fun t mem => alongLink along mem
  rw [inner, List.forall_mem_cons] at links
  exact ⟨_, inner, rfl, links.1, onwardFolds ls.length l b n m next (chainShort along apart)
    (fun x mem => placeApart apart mem) links.2 reads⟩

theorem aroundFolds {f : β → Nat → Link α → Option β} {g : β → _ → β} (along : Along ls (b :: l))
    (apart : ((b :: l).map (·.2)).Nodup)
    (reads : ∀ s, ∀ t ∈ triples (b :: l), f s t.2.1.2 (linkOf t) = some (g s t)) (s : β) :
    ls.around b.2 f s = some ((triples (b :: l)).foldl g s) := by
  obtain ⟨t, inner, rfl, link, rest⟩ := tailFolds (f := f) (g := g) along apart fun s t mem =>
    reads s t (by rw [triplesCons]; exact turnsTail mem)
  rw [inner, List.foldl_cons, ← rest, around, link]
  have here := reads s t (inner ▸ List.mem_cons_self ..)
  simp only [here, Option.bind_eq_bind, Option.bind_some]

theorem countFromReads {start : Node α × Nat} (fuel n : Nat) (l : Chain α) (a q : Node α × Nat) (k : Chain α)
    (path : l ++ [start] = q :: k) (long : l.length ≤ fuel) (away : ∀ b ∈ l, b.2 ≠ start.2)
    (links : ∀ t ∈ turns (a :: l ++ [start]), ls[t.2.1.2]? = some (linkOf t)) :
    ls.countFrom start.2 fuel q.2 n = some (n + l.length) := by
  induction l generalizing a q k fuel n with
  | nil =>
    obtain ⟨rfl, -⟩ : start = q ∧ _ := by simpa using path
    cases fuel <;> simp [countFrom]
  | cons b l ih =>
    obtain ⟨fuel, rfl⟩ := Nat.exists_eq_add_of_le long
    obtain ⟨rfl, -⟩ : b = q ∧ _ := by simpa using path
    obtain ⟨p, m, next, inner⟩ := turnsNext a b l start
    rw [inner, List.forall_mem_cons] at links
    have rest := ih (l.length + fuel) (n + 1) b p m next (by omega)
      (fun x mem => away x (List.mem_cons_of_mem _ mem)) links.2
    rw [List.length_cons, Nat.add_right_comm l.length, countFrom, if_neg (away b (List.mem_cons_self ..)), links.1]
    simp only [Option.bind_eq_bind, Option.bind_some]
    rw [show (linkOf (a, b, p)).next = p.2 from rfl, rest, Nat.add_assoc, Nat.add_comm 1]

theorem countReads (along : Along ls (b :: l)) (apart : ((b :: l).map (·.2)).Nodup) :
    ls.count b.2 = some (b :: l).length := by
  obtain ⟨n, m, next, path⟩ := turnsNext ((b :: l).getLast (List.cons_ne_nil b l)) b l b
  have links : ∀ t ∈ triples (b :: l), ls[t.2.1.2]? = some (linkOf t) := fun t mem => alongLink along mem
  rw [triplesCons, path, List.forall_mem_cons] at links
  rw [count, links.1]
  simp only [Option.bind_eq_bind, Option.bind_some]
  rw [show (linkOf (_, b, n)).next = n.2 from rfl,
    countFromReads ls.length 1 l b n m next (Nat.le_of_lt (chainShort along apart))
      (fun x mem => placeApart apart mem) links.2, List.length_cons, Nat.add_comm]

end Links
end SceneStream.Geometry
