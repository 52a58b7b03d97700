import Mathlib.Data.List.Perm.Subperm
import SceneStream.Geometry.Links
import SceneStream.Proofs.Geometry.Ring

/-! Rings in a store of links: each leads around one closed chain, back as well as forth. Taking a vertex out,
turning a ring and joining two leave such chains, and every ring that is not at work as it was. -/
namespace SceneStream.Geometry
variable {β : Type}

namespace Links
variable {α : Type} {ls ms : Links α} {p q x : Nat}

def nodeAt (ls : Links α) (p : Nat) : Option (Node α) := ls[p]?.map Link.node
def nextAt (ls : Links α) (p : Nat) : Option Nat := ls[p]?.map Link.next
def prevAt (ls : Links α) (p : Nat) : Option Nat := ls[p]?.map Link.prev

theorem linkAt {n : Node α} (node : ls.nodeAt x = some n) (prev : ls.prevAt x = some p)
    (next : ls.nextAt x = some q) : ls[x]? = some ⟨n, p, q⟩ := by
  obtain ⟨l, found, rfl⟩ := Option.map_eq_some_iff.mp node
  simp only [prevAt, nextAt, found, Option.map_some, Option.some.injEq] at prev next
  rw [found, ← prev, ← next]

structure Sets (ls ms : Links α) (next prev : Nat → Option Nat) : Prop where
  length : ms.length = ls.length
  node : ∀ x, ms.nodeAt x = ls.nodeAt x
  next : ∀ x, ms.nextAt x = next x
  prev : ∀ x, ms.prevAt x = prev x

theorem setNextSets (ls : Links α) {l : Link α} (found : ls[p]? = some l) (q : Nat) :
    ∃ ms, ls.setNext p q = some ms ∧
      Sets ls ms (fun x => if x = p then some q else ls.nextAt x) ls.prevAt := by
  obtain ⟨inside, rfl⟩ := List.getElem?_eq_some_iff.mp found
  refine ⟨_, by rw [setNext, found]; rfl, by simp, fun x => ?_, fun x => ?_, fun x => ?_⟩ <;>
    by_cases same : p = x <;>
    simp [nodeAt, nextAt, prevAt, List.getElem?_set, same, eq_comm (a := x)]
  all_goals subst same; simp [inside]

theorem setPrevSets (ls : Links α) {l : Link α} (found : ls[p]? = some l) (q : Nat) :
    ∃ ms, ls.setPrev p q = some ms ∧
      Sets ls ms ls.nextAt (fun x => if x = p then some q else ls.prevAt x) := by
  obtain ⟨inside, rfl⟩ := List.getElem?_eq_some_iff.mp found
  refine ⟨_, by rw [setPrev, found]; rfl, by simp, fun x => ?_, fun x => ?_, fun x => ?_⟩ <;>
    by_cases same : p = x <;>
    simp [nodeAt, nextAt, prevAt, List.getElem?_set, same, eq_comm (a := x)]
  all_goals subst same; simp [inside]

abbrev Chain (α : Type) := List (Node α × Nat)

def Linked (ls : Links α) (e : (Node α × Nat) × (Node α × Nat)) : Prop :=
  ls.nextAt e.1.2 = some e.2.2 ∧ ls.prevAt e.2.2 = some e.1.2

/-- Links lead around a chain, to its start again. -/
structure Along (ls : Links α) (c : Chain α) : Prop where
  nodes : ∀ a ∈ c, ls.nodeAt a.2 = some a.1
  linked : ∀ e ∈ edges c, Linked ls e

/-- Links are those of some rings, each one closed chain that shares nothing with the others. -/
structure Held (ls : Links α) (rings : List (Chain α)) : Prop where
  apart : (rings.flatten.map (·.2)).Nodup
  along : ∀ c ∈ rings, Along ls c

variable {a b c : Node α × Nat} {l m : Chain α} {rest : List (Chain α)}

theorem placeApart (apart : ((a :: l).map (·.2)).Nodup) (mem : b ∈ l) : b.2 ≠ a.2 := by
  rw [List.map_cons, List.nodup_cons] at apart
  exact fun same => apart.1 (same ▸ List.mem_map_of_mem mem)

theorem stepEnters (apart : ((a :: l).map (·.2)).Nodup) {e : (Node α × Nat) × (Node α × Nat)}
    (mem : e ∈ steps (a :: l)) : e.2.2 ≠ a.2 :=
  placeApart apart (stepsInside mem).2

theorem stepLeaves (apart : ((l ++ [a]).map (·.2)).Nodup) {e : (Node α × Nat) × (Node α × Nat)}
    (mem : e ∈ steps (l ++ [a])) : e.1.2 ≠ a.2 := by
  have place := (stepsInside mem).1
  rw [List.dropLast_concat] at place
  rw [List.map_append, List.nodup_append] at apart
  exact apart.2.2 _ (List.mem_map_of_mem place) _ (by simp)

theorem alongInside (along : Along ls l) (mem : a ∈ l) : a.2 < ls.length := by
  obtain ⟨k, found, -⟩ := Option.map_eq_some_iff.mp (along.nodes a mem)
  exact (List.getElem?_eq_some_iff.mp found).1

theorem heldAlong (held : Held ls (l :: rest)) : Along ls l ∧ (l.map (·.2)).Nodup := by
  have apart := held.apart
  rw [List.flatten_cons, List.map_append] at apart
  exact ⟨held.along l (List.mem_cons_self ..), apart.of_append_left⟩

structure Agree (ls ms : Links α) (x : Nat) : Prop where
  node : ms.nodeAt x = ls.nodeAt x
  next : ms.nextAt x = ls.nextAt x
  prev : ms.prevAt x = ls.prevAt x

theorem alongAgree (along : Along ls l) (agree : ∀ a ∈ l, Agree ls ms a.2) : Along ms l where
  nodes a mem := (agree a mem).node.trans (along.nodes a mem)
  linked e mem := by
    have inside := edgesInside mem
    have linked := along.linked e mem
    exact ⟨(agree _ inside.1).next.trans linked.1, (agree _ inside.2).prev.trans linked.2⟩

theorem heldReplace (old : List (Chain α)) (held : Held ls (old ++ rest)) (along : Along ms l)
    (apart : (l.map (·.2)).Nodup)
    (source : ∀ a ∈ l, a.2 ∈ old.flatten.map (·.2) ∨ ls.length ≤ a.2)
    (agree : ∀ x < ls.length, x ∉ old.flatten.map (·.2) → Agree ls ms x) : Held ms (l :: rest) := by
  have all := held.apart
  rw [List.flatten_append, List.map_append] at all
  have away {x : Nat} (mem : x ∈ rest.flatten.map (·.2)) : x < ls.length ∧ x ∉ old.flatten.map (·.2) := by
    refine ⟨?_, fun inside => List.disjoint_of_nodup_append all inside mem⟩
    obtain ⟨a, inside, rfl⟩ := List.mem_map.mp mem
    obtain ⟨k, ring, member⟩ := List.mem_flatten.mp inside
    exact alongInside (held.along k (List.mem_append_right _ ring)) member
  refine ⟨?_, fun k mem => ?_⟩
  · rw [List.flatten_cons, List.map_append]
    refine apart.append all.of_append_right fun x inside other => ?_
    obtain ⟨a, member, rfl⟩ := List.mem_map.mp inside
    rcases source a member with known | new
    · exact (away other).2 known
    · exact absurd (away other).1 (Nat.not_lt.mpr new)
  · rcases List.mem_cons.mp mem with rfl | other
    · exact along
    · refine alongAgree (held.along k (List.mem_append_right _ other)) fun a member => ?_
      have known := away (List.mem_map_of_mem (List.mem_flatten_of_mem other member))
      exact agree _ known.1 known.2

theorem heldPerm {rings later : List (Chain α)} (held : Held ls rings) (order : rings.Perm later) :
    Held ls later where
  apart := ((order.flatten.map _).nodup_iff).mp held.apart
  along c mem := held.along c (order.mem_iff.mpr mem)

theorem alongRotate (along : Along ls l) (n : Nat) : Along ls (l.rotate n) where
  nodes a inside := along.nodes a (List.mem_rotate.mp inside)
  linked e inside := by
    rw [edgesRotate] at inside
    exact along.linked e (List.mem_rotate.mp inside)

theorem heldRotate {k : Chain α} (held : Held ls (l :: rest)) (turned : l ~r k) : Held ls (k :: rest) := by
  obtain ⟨along, apart⟩ := heldAlong held
  obtain ⟨n, rfl⟩ := turned
  refine heldReplace [l] held (alongRotate along n) ?_ ?_ ?_
  · rw [List.map_rotate]
    exact List.nodup_rotate.mpr apart
  · intro a inside
    exact .inl (List.mem_map_of_mem (by simpa using inside))
  · exact fun x _ _ => ⟨rfl, rfl, rfl⟩

theorem unlinkHeld (held : Held ls ((b :: c :: l) :: rest)) :
    ∃ ms, ls.unlink b.2 = some ms ∧ Held ms ((c :: l) :: rest) := by
  obtain ⟨along, apart⟩ := heldAlong held
  obtain ⟨k, a, split⟩ := (List.eq_nil_or_concat (c :: l)).resolve_left (List.cons_ne_nil c l)
  rw [List.concat_eq_append] at split
  have around : edges (b :: c :: l) = (b, c) :: (steps (k ++ [a]) ++ [(a, b)]) := by
    have rest : steps (c :: l ++ [b]) = steps (k ++ [a]) ++ [(a, b)] := by
      rw [split, List.append_assoc, List.singleton_append, stepsAppend]
      rfl
    rw [← rest, edgesCons]
    rfl
  have shorter : edges (c :: l) = steps (k ++ [a]) ++ [(a, c)] := by
    rw [edgesCons, split, List.append_assoc, List.singleton_append, stepsAppend]
    rfl
  have linked := along.linked
  rw [around, List.forall_mem_cons, List.forall_mem_append, List.forall_mem_singleton] at linked
  obtain ⟨ahead, path, back⟩ := linked
  have aMem : a ∈ c :: l := by simp [split]
  obtain ⟨ks, first, kSets⟩ := setNextSets ls
    (List.getElem?_eq_getElem (alongInside along (List.mem_cons_of_mem _ aMem))) c.2
  obtain ⟨ms, second, mSets⟩ := setPrevSets ks (p := c.2)
    (List.getElem?_eq_getElem (kSets.length ▸ alongInside along (by simp))) a.2
  have found := linkAt (along.nodes b (by simp)) back.2 ahead.1
  have inner : ((c :: l).map (·.2)).Nodup := apart.of_cons
  refine ⟨ms, by simp [unlink, found, first, second], heldReplace [_] held ?_ inner ?_ ?_⟩
  · refine ⟨fun x mem => ?_, fun e mem => ?_⟩
    · rw [mSets.node, kSets.node]
      exact along.nodes x (List.mem_cons_of_mem _ mem)
    · rw [Linked, mSets.next, mSets.prev, kSets.next, kSets.prev]
      rw [shorter, List.mem_append, List.mem_singleton] at mem
      rcases mem with inside | rfl
      · simp only [stepLeaves (split ▸ inner) inside, stepEnters inner (split ▸ inside), if_false]
        exact path e inside
      · simp
  · intro x mem
    exact .inl (List.mem_map_of_mem (by simp [List.mem_cons.mp mem]))
  · intro x _ away
    have away : x ≠ a.2 ∧ x ≠ c.2 := by
      refine ⟨?_, ?_⟩ <;> rintro rfl
      · exact away (List.mem_map_of_mem (by simpa using .inr (List.mem_cons.mp aMem)))
      · exact away (List.mem_map_of_mem (by simp))
    exact ⟨by rw [mSets.node, kSets.node], by rw [mSets.next, kSets.next, if_neg away.1],
      by rw [mSets.prev, kSets.prev, if_neg away.2]⟩

structure Turned (ls ms : Links α) (l : Chain α) : Prop where
  length : ms.length = ls.length
  inside : ∀ a ∈ l, ms.nodeAt a.2 = ls.nodeAt a.2 ∧ ms.nextAt a.2 = ls.prevAt a.2 ∧ ms.prevAt a.2 = ls.nextAt a.2
  outside : ∀ x, x ∉ l.map (·.2) → Agree ls ms x

theorem turnedSet {n : Node α} (found : ls[a.2]? = some ⟨n, p, q⟩) :
    Turned ls (ls.set a.2 ⟨n, q, p⟩) [a] where
  length := List.length_set
  inside x mem := by
    obtain ⟨inside, same⟩ := List.getElem?_eq_some_iff.mp found
    cases List.mem_singleton.mp mem
    simp [nodeAt, nextAt, prevAt, inside, same]
  outside x away := by
    have other : a.2 ≠ x := by simpa [eq_comm] using away
    constructor <;> simp [nodeAt, nextAt, prevAt, List.getElem?_set_ne other]

theorem turnedCons (first : Turned ls ms [a]) {ks : Links α} (later : Turned ms ks l)
    (apart : ((a :: l).map (·.2)).Nodup) : Turned ls ks (a :: l) where
  length := later.length.trans first.length
  inside x mem := by
    rcases List.mem_cons.mp mem with rfl | rest
    · have turned := first.inside x (List.mem_singleton_self x)
      have kept := later.outside x.2 (List.nodup_cons.mp apart).1
      rw [kept.node, kept.next, kept.prev]
      exact turned
    · have kept := first.outside x.2 (by simpa using placeApart apart rest)
      have turned := later.inside x rest
      rw [kept.node, kept.next, kept.prev] at turned
      exact turned
  outside x away := by
    rw [List.map_cons, List.mem_cons, not_or] at away
    have before := first.outside x (by simpa using away.1)
    have after := later.outside x away.2
    exact ⟨after.node.trans before.node, after.next.trans before.next, after.prev.trans before.prev⟩

theorem turnFromTurned (fuel : Nat) (start a : Node α × Nat) (l : Chain α)
    (long : l.length < fuel) (apart : ((a :: l).map (·.2)).Nodup)
    (inside : ∀ b ∈ a :: l, b.2 < ls.length)
    (ahead : ∀ e ∈ steps (a :: l ++ [start]), ls.nextAt e.1.2 = some e.2.2)
    (away : ∀ b ∈ l, b.2 ≠ start.2) :
    ∃ ms, turnFrom start.2 fuel ls a.2 = some ms ∧ Turned ls ms (a :: l) := by
  induction l generalizing ls a fuel with
  | nil =>
    obtain ⟨fuel, rfl⟩ := Nat.exists_eq_add_of_lt long
    obtain ⟨⟨n, p, q⟩, found⟩ : ∃ k, ls[a.2]? = some k := ⟨_, List.getElem?_eq_getElem (inside a (by simp))⟩
    have next := ahead (a, start) (by simp [steps])
    simp only [nextAt, found, Option.map_some, Option.some.injEq] at next
    refine ⟨_, ?_, turnedSet found⟩
    simp [turnFrom, found, next]
  | cons b l ih =>
    obtain ⟨fuel, rfl⟩ := Nat.exists_eq_add_of_lt long
    obtain ⟨⟨n, p, q⟩, found⟩ : ∃ k, ls[a.2]? = some k := ⟨_, List.getElem?_eq_getElem (inside a (by simp))⟩
    have path : steps (a :: b :: l ++ [start]) = (a, b) :: steps (b :: l ++ [start]) := rfl
    rw [path, List.forall_mem_cons] at ahead
    obtain rfl : q = b.2 := by simpa [nextAt, found] using ahead.1
    have turned := turnedSet found
    have kept (x : Node α × Nat) (mem : x ∈ b :: l) : Agree ls (ls.set a.2 ⟨n, b.2, p⟩) x.2 :=
      turned.outside x.2 (by simpa using placeApart apart mem)
    have still : ∀ x ∈ b :: l, x.2 < (ls.set a.2 ⟨n, b.2, p⟩).length :=
      fun x mem => turned.length ▸ inside x (List.mem_cons_of_mem _ mem)
    obtain ⟨ms, done, rest⟩ := ih ((b :: l).length + fuel) b (by simp only [List.length_cons]; omega)
      apart.of_cons still
      (fun e mem => by
        have first := (stepsInside mem).1
        rw [List.dropLast_concat] at first
        rw [(kept _ first).next]
        exact ahead.2 e mem)
      (fun x mem => away x (List.mem_cons_of_mem _ mem))
    refine ⟨ms, ?_, turnedCons turned rest apart⟩
    have more : b.2 ≠ start.2 := away b (List.mem_cons_self ..)
    simpa only [turnFrom, found, Option.bind_eq_bind, Option.bind_some, more, if_false] using done

theorem chainShort (along : Along ls l) (apart : (l.map (·.2)).Nodup) : l.length ≤ ls.length := by
  have subset : l.map (·.2) ⊆ List.range ls.length := by
    intro x mem
    obtain ⟨a, inside, rfl⟩ := List.mem_map.mp mem
    exact List.mem_range.mpr (alongInside along inside)
  simpa using (List.subperm_of_subset apart subset).length_le

theorem turnHeld (held : Held ls ((b :: l) :: rest)) :
    ∃ ms, ls.turn b.2 = some ms ∧ Held ms ((b :: l.reverse) :: rest) := by
  obtain ⟨along, apart⟩ := heldAlong held
  have linked := along.linked
  obtain ⟨ms, done, turned⟩ := turnFromTurned ls.length b b l
    (chainShort along apart) apart (fun x mem => alongInside along mem)
    (fun e mem => (along.linked e (edgesCons b l ▸ mem)).1) (fun x mem => placeApart apart mem)
  have same {x : Node α × Nat} : x ∈ b :: l.reverse ↔ x ∈ b :: l := by simp
  refine ⟨ms, done, heldReplace [b :: l] held ⟨fun x mem => ?_, fun e mem => ?_⟩ ?_ ?_ ?_⟩
  · rw [(turned.inside x (same.mp mem)).1]
    exact along.nodes x (same.mp mem)
  · rw [edgesReverse, List.mem_reverse] at mem
    obtain ⟨⟨x, y⟩, edge, rfl⟩ := List.mem_map.mp mem
    have ends := edgesInside edge
    have linked := along.linked _ edge
    exact ⟨(turned.inside y ends.2).2.1.trans linked.2, (turned.inside x ends.1).2.2.trans linked.1⟩
  · have order : (b :: l.reverse).Perm (b :: l) := (List.reverse_perm l).cons b
    exact ((order.map _).nodup_iff).mpr apart
  · exact fun x mem => .inl (List.mem_map_of_mem (by simpa using same.mp mem))
  · exact fun x _ away => turned.outside x (by simpa using away)

theorem appendAt (ls : Links α) (u v : Link α) (i : Nat) : (ls ++ [u, v])[i]? =
    if i = ls.length then some u else if i = ls.length + 1 then some v else ls[i]? := by
  by_cases old : i < ls.length
  · rw [List.getElem?_append_left old, if_neg (by omega), if_neg (by omega)]
  · obtain ⟨k, rfl⟩ := Nat.exists_eq_add_of_le (Nat.not_lt.mp old)
    rw [List.getElem?_append_right (by omega), Nat.add_sub_cancel_left]
    match k with
    | 0 | 1 => simp
    | k + 2 => simp

structure Joins (ls ms : Links α) (x y : Link α) (p q : Nat) : Prop where
  node : ∀ i, ms.nodeAt i = if i = ls.length then some x.node
    else if i = ls.length + 1 then some y.node else ls.nodeAt i
  next : ∀ i, ms.nextAt i = if i = y.prev then some (ls.length + 1) else if i = p then some q
    else if i = ls.length then some x.next else if i = ls.length + 1 then some ls.length else ls.nextAt i
  prev : ∀ i, ms.prevAt i = if i = x.next then some ls.length else if i = q then some p
    else if i = ls.length then some (ls.length + 1) else if i = ls.length + 1 then some y.prev
    else ls.prevAt i

theorem joinSets {x y : Link α} (found : ls[p]? = some x) (other : ls[q]? = some y)
    (next : x.next < ls.length) (prev : y.prev < ls.length) :
    ∃ ms, ls.join p q = some ms ∧ Joins ls ms x y p q := by
  let copies : Links α := ls ++ [⟨x.node, ls.length + 1, x.next⟩, ⟨y.node, y.prev, ls.length⟩]
  have pInside : p < copies.length := by
    have := (List.getElem?_eq_some_iff.mp found).1
    simp only [copies, List.length_append]; omega
  have qInside : q < copies.length := by
    have := (List.getElem?_eq_some_iff.mp other).1
    simp only [copies, List.length_append]; omega
  obtain ⟨s₁, first, sets₁⟩ := setNextSets copies (List.getElem?_eq_getElem pInside) q
  obtain ⟨s₂, second, sets₂⟩ := setPrevSets s₁ (List.getElem?_eq_getElem (sets₁.length ▸ qInside)) p
  have long : s₂.length = ls.length + 2 := by simp [sets₂.length, sets₁.length, copies]
  obtain ⟨s₃, third, sets₃⟩ := setPrevSets s₂ (p := x.next)
    (List.getElem?_eq_getElem (by omega)) ls.length
  obtain ⟨s₄, fourth, sets₄⟩ := setNextSets s₃ (p := y.prev)
    (List.getElem?_eq_getElem (by rw [sets₃.length]; omega)) (ls.length + 1)
  refine ⟨s₄, ?_, fun i => ?_, fun i => ?_, fun i => ?_⟩
  · simp only [join, found, other, Option.bind_eq_bind, Option.bind_some]
    rw [first, Option.bind_some, second, Option.bind_some, third, Option.bind_some, fourth]
  · rw [sets₄.node, sets₃.node, sets₂.node, sets₁.node, nodeAt, appendAt]
    split_ifs <;> rfl
  · rw [sets₄.next, sets₃.next, sets₂.next, sets₁.next, nextAt, appendAt]
    split_ifs <;> rfl
  · rw [sets₄.prev, sets₃.prev, sets₂.prev, sets₁.prev, prevAt, appendAt]
    split_ifs <;> rfl

theorem joinsOther {x y : Link α} (joins : Joins ls ms x y p q) {i : Nat} (old : i < ls.length)
    (notP : i ≠ p) (notQ : i ≠ q) (notNext : i ≠ x.next) (notPrev : i ≠ y.prev) : Agree ls ms i := by
  have notCopy : i ≠ ls.length ∧ i ≠ ls.length + 1 := by omega
  exact ⟨by rw [joins.node, if_neg notCopy.1, if_neg notCopy.2],
    by rw [joins.next, if_neg notPrev, if_neg notP, if_neg notCopy.1, if_neg notCopy.2],
    by rw [joins.prev, if_neg notNext, if_neg notQ, if_neg notCopy.1, if_neg notCopy.2]⟩

theorem joinsPath {x y : Link α} (joins : Joins ls ms x y p q) {e : (Node α × Nat) × (Node α × Nat)}
    (linked : Linked ls e) (notP : e.1.2 ≠ p) (notPrev : e.1.2 ≠ y.prev) (notQ : e.2.2 ≠ q)
    (notNext : e.2.2 ≠ x.next) (before : e.1.2 < ls.length) (after : e.2.2 < ls.length) : Linked ms e := by
  constructor
  · rw [joins.next, if_neg notPrev, if_neg notP, if_neg (by omega), if_neg (by omega)]
    exact linked.1
  · rw [joins.prev, if_neg notNext, if_neg notQ, if_neg (by omega), if_neg (by omega)]
    exact linked.2

theorem joinsBridge {x y : Link α} (joins : Joins ls ms x y a.2 b.2) {z w : Node α × Nat} (next : x.next = w.2)
    (prev : y.prev = z.2) (aw : a.2 ≠ z.2) (bw : b.2 ≠ w.2) (zw : z.2 < ls.length) (ww : w.2 < ls.length)
    (aIn : a.2 < ls.length) (bIn : b.2 < ls.length) :
    Linked ms (a, b) ∧ Linked ms (z, (b.1, ls.length + 1)) ∧
      Linked ms ((b.1, ls.length + 1), (a.1, ls.length)) ∧ Linked ms ((a.1, ls.length), w) := by
  simp only [Linked, joins.next, joins.prev, next, prev]
  grind

theorem edgeAhead {a w : β} {l t : List β} (start : l ++ [a] = w :: t) : (a, w) ∈ edges (a :: l) := by
  rw [edgesCons, List.cons_append, start, stepsCons]
  exact List.mem_cons_self ..

theorem edgeLast {k w : List β} {a s : β} (start : k ++ [a] = s :: w) : (a, s) ∈ edges (k ++ [a]) := by
  rw [start, edgesCons, ← start, List.append_assoc, List.singleton_append, stepsAppend]
  exact List.mem_append_right _ (List.mem_cons_self ..)

theorem joinEdges {a b w z A B : β} {l m t : List β} (start : l ++ [a] = w :: t)
    (holeEdges : steps (b :: m ++ [B]) = steps (b :: m) ++ [(z, B)]) :
    edges (a :: b :: m ++ B :: A :: l) = (a, b) :: (steps (b :: m) ++ (z, B) :: (B, A) :: (A, w) ::
      steps (l ++ [a])) := by
  have path : a :: b :: m ++ B :: A :: l ++ [a] = a :: (b :: m ++ B :: A :: (l ++ [a])) := by simp
  rw [List.cons_append, edgesCons, ← List.cons_append, path, List.cons_append, stepsCons,
    ← List.cons_append, stepsAppend, holeEdges, stepsCons, start, stepsCons, List.append_assoc,
    List.singleton_append]

theorem joinPerm (a b A B : β) (l m : List β) :
    (a :: b :: m ++ B :: A :: l).Perm (B :: A :: (a :: l ++ b :: m)) :=
  List.perm_middle.trans (.cons _ (List.perm_middle.trans (.cons _ (.cons a List.perm_append_comm))))

theorem joinFrom {u a b A B : β} {l m : List β} (mem : u ∈ a :: b :: m ++ B :: A :: l) :
    (u ∈ a :: l ∨ u ∈ b :: m) ∨ u = B ∨ u = A := by
  simpa only [(joinPerm a b A B l m).mem_iff, List.mem_cons (a := u) (b := B), List.mem_cons (a := u) (b := A),
    List.mem_append, or_assoc, or_comm, or_left_comm] using mem

/-! Two chains of a store, the one from `a` on to `w` and the other from `z` back to `b`. -/
section Join
variable {w z : Node α × Nat} {t k : Chain α} (outer : Along ls (a :: l)) (hole : Along ls (b :: m))
  (both : ((a :: l).map (·.2) ++ (b :: m).map (·.2)).Nodup)
include outer hole both

theorem joinApart : ((a :: b :: m ++ (b.1, ls.length + 1) :: (a.1, ls.length) :: l).map (·.2)).Nodup := by
  rw [((joinPerm ..).map _).nodup_iff, List.map_cons, List.map_cons, List.map_append]
  have bounded : ∀ i ∈ (a :: l).map (·.2) ++ (b :: m).map (·.2), i < ls.length := by
    simp only [List.forall_mem_append, List.forall_mem_map]
    exact ⟨fun u mem => alongInside outer mem, fun u mem => alongInside hole mem⟩
  refine .cons (fun mem => ?_) (.cons (fun mem => Nat.lt_irrefl _ (bounded _ mem)) both)
  rcases List.mem_cons.mp mem with same | inside
  · omega
  · have := bounded _ inside
    omega

variable (start : l ++ [a] = w :: t) (split : b :: m = k ++ [z])
include start split

theorem joinLinked {x y : Link α} (joins : Joins ls ms x y a.2 b.2) (next : x.next = w.2) (prev : y.prev = z.2) :
    ∀ e ∈ edges (a :: b :: m ++ (b.1, ls.length + 1) :: (a.1, ls.length) :: l), Linked ms e := by
  have across {u v : Node α × Nat} (mem : u ∈ a :: l) (other : v ∈ b :: m) : u.2 ≠ v.2 :=
    (List.nodup_append.mp both).2.2 _ (List.mem_map_of_mem mem) _ (List.mem_map_of_mem other)
  have turned : (l ++ [a]).Perm (a :: l) := List.perm_append_singleton a l
  have wMem : w ∈ a :: l := turned.mem_iff.mp (start ▸ List.mem_cons_self ..)
  have zMem : z ∈ b :: m := split ▸ List.mem_append_right k (List.mem_singleton_self z)
  have aMem : a ∈ a :: l := List.mem_cons_self ..
  have bMem : b ∈ b :: m := List.mem_cons_self ..
  have holeEdges (v : Node α × Nat) : steps (b :: m ++ [v]) = steps (b :: m) ++ [(z, v)] := by
    rw [split, List.append_assoc, List.singleton_append, stepsAppend]
    rfl
  have outerLinked := outer.linked
  rw [edgesCons, List.cons_append, start, stepsCons, List.forall_mem_cons, ← start] at outerLinked
  have holeLinked := hole.linked
  rw [edgesCons, holeEdges, List.forall_mem_append] at holeLinked
  have inOuter {u : Node α × Nat} (mem : u ∈ a :: l) := alongInside outer mem
  have inHole {u : Node α × Nat} (mem : u ∈ b :: m) := alongInside hole mem
  have outerApart : ((a :: l).map (·.2)).Nodup := both.of_append_left
  have holeApart : ((b :: m).map (·.2)).Nodup := both.of_append_right
  have turnedApart : ((l ++ [a]).map (·.2)).Nodup := (turned.map _).nodup_iff.mpr outerApart
  obtain ⟨there, around, back, last⟩ := joinsBridge joins next prev (across aMem zMem)
    (across wMem bMem).symm (inHole zMem) (inOuter wMem) (inOuter aMem) (inHole bMem)
  rw [joinEdges start (holeEdges _)]
  simp only [List.forall_mem_cons, List.forall_mem_append]
  refine ⟨there, fun e mem => ?_, around, back, last, fun e mem => ?_⟩
  · have before : e.1 ∈ b :: m := List.dropLast_subset _ (stepsInside mem).1
    have after : e.2 ∈ b :: m := List.mem_cons_of_mem _ (stepsInside mem).2
    have notZ : e.1.2 ≠ z.2 := stepLeaves (split ▸ holeApart) (split ▸ mem)
    exact joinsPath joins (holeLinked.1 e mem) (across aMem before).symm (prev ▸ notZ)
      (stepEnters holeApart mem) (next ▸ (across wMem after).symm) (inHole before) (inHole after)
  · have before : e.1 ∈ a :: l := turned.mem_iff.mp (List.dropLast_subset _ (stepsInside mem).1)
    have after : e.2 ∈ a :: l := turned.mem_iff.mp (List.tail_subset _ (stepsInside mem).2)
    have notW : e.2.2 ≠ w.2 := stepEnters (start ▸ turnedApart) (start ▸ mem)
    exact joinsPath joins (outerLinked.2 e mem) (stepLeaves turnedApart mem)
      (prev ▸ across before zMem) (across after bMem) (next ▸ notW) (inOuter before) (inOuter after)

end Join

theorem joinHeld (held : Held ls ((a :: l) :: (b :: m) :: rest)) :
    ∃ ms, ls.join a.2 b.2 = some ms ∧
      Held ms ((a :: b :: m ++ (b.1, ls.length + 1) :: (a.1, ls.length) :: l) :: rest) := by
  obtain ⟨outer, -⟩ := heldAlong held
  obtain ⟨hole, -⟩ := heldAlong (heldPerm held (.swap ..))
  have both : ((a :: l).map (·.2) ++ (b :: m).map (·.2)).Nodup := by
    have apart := held.apart
    rw [List.flatten_cons, List.flatten_cons, ← List.append_assoc, List.map_append, List.map_append] at apart
    exact apart.of_append_left
  obtain ⟨w, t, start⟩ := List.exists_cons_of_ne_nil (List.append_ne_nil_of_right_ne_nil l (List.cons_ne_nil a []))
  obtain ⟨k, z, split⟩ := (List.eq_nil_or_concat (b :: m)).resolve_left (List.cons_ne_nil b m)
  rw [List.concat_eq_append] at split
  have wMem : w ∈ a :: l := (List.perm_append_singleton a l).mem_iff.mp (start ▸ List.mem_cons_self ..)
  have zMem : z ∈ b :: m := split ▸ List.mem_append_right k (List.mem_singleton_self z)
  have ahead : Linked ls (a, w) := outer.linked _ (edgeAhead start)
  have back : Linked ls (z, b) := hole.linked _ (split ▸ edgeLast split.symm)
  obtain ⟨x, found, node⟩ := Option.map_eq_some_iff.mp (outer.nodes a (List.mem_cons_self ..))
  obtain ⟨y, other, copied⟩ := Option.map_eq_some_iff.mp (hole.nodes b (List.mem_cons_self ..))
  have next : x.next = w.2 := by simpa [nextAt, found] using ahead.1
  have prev : y.prev = z.2 := by simpa [prevAt, other] using back.2
  obtain ⟨ms, done, joins⟩ := joinSets found other (next ▸ alongInside outer wMem) (prev ▸ alongInside hole zMem)
  refine ⟨ms, done, heldReplace [a :: l, b :: m] held ⟨fun u mem => ?_, ?_⟩ (joinApart outer hole both) ?_ ?_⟩
  · have kept (known : ls.nodeAt u.2 = some u.1) (old : u.2 < ls.length) : ms.nodeAt u.2 = some u.1 := by
      rw [joins.node, if_neg (by omega), if_neg (by omega), known]
    rcases joinFrom mem with (inside | inside) | rfl | rfl
    · exact kept (outer.nodes u inside) (alongInside outer inside)
    · exact kept (hole.nodes u inside) (alongInside hole inside)
    · simp [joins.node, copied]
    · simp [joins.node, node]
  · exact joinLinked outer hole both start split joins next prev
  · intro u mem
    rcases joinFrom mem with inside | rfl | rfl
    · exact .inl (List.mem_map_of_mem (by simpa [or_assoc] using inside))
    · exact .inr (Nat.le_succ _)
    · exact .inr (Nat.le_refl _)
  · intro i inside away
    have other {u : Node α × Nat} (mem : u ∈ a :: l ∨ u ∈ b :: m) : i ≠ u.2 := by
      rintro rfl
      exact away (List.mem_map_of_mem (by simpa [or_assoc] using mem))
    exact joinsOther joins inside (other (.inl (List.mem_cons_self ..))) (other (.inr (List.mem_cons_self ..)))
      (next ▸ other (.inl wMem)) (prev ▸ other (.inr zMem))

end Links
end SceneStream.Geometry
