import SceneStream.Geometry.Triangulation
import SceneStream.Proofs.Geometry.Search
import SceneStream.Proofs.Work

/-! Triangles of a polygon join its own points and turn to the left: no step of the triangulation makes up a vertex. -/
namespace SceneStream.Geometry
open SceneStream.Outcome (okBind)
variable {α : Type}

namespace Ring

theorem startSubset {β : Type} (i : Nat) (l : List β) : startAt i l ⊆ l := by
  intro b mem
  exact (List.mem_append.mp mem).elim List.mem_of_mem_drop List.mem_of_mem_take

theorem reversedSubset (r : Ring α) : r.reversed ⊆ r := by
  cases r with
  | nil => exact nofun
  | cons a l => exact List.cons_subset_cons a fun b mem => List.mem_reverse.mp mem

theorem joinSubset (outer : Ring α) (i : Nat) (hole : Ring α) : join outer i hole ⊆ outer ++ hole := by
  have begun := startSubset i outer
  unfold join
  split
  · rename_i a l b m start
    rw [start] at begun
    intro x mem
    simp only [List.mem_append, List.mem_cons] at mem ⊢
    have first (inside : x = a ∨ x ∈ l) : x ∈ outer := begun (List.mem_cons.mpr inside)
    grind
  · exact fun x mem => List.mem_append_left _ (begun mem)

theorem cornersInside {r : Ring α} {c : Corner α} (mem : c ∈ corners r) :
    c.before ∈ r ∧ c.node ∈ r ∧ c.after ∈ r := by
  obtain ⟨⟨a, b, d⟩, inside, rfl⟩ := List.mem_map.mp mem
  obtain ⟨before, rest⟩ := List.of_mem_zip inside
  obtain ⟨node, after⟩ := List.of_mem_zip rest
  exact ⟨startSubset _ r before, node, startSubset _ r after⟩

def Joins (r : Ring α) (t : Triangle) : Prop := ∀ i ∈ t.toList, ∃ a ∈ r, a.index = i

variable [Scalar α]

def Turned (eps : α) (r : Ring α) (t : Triangle) : Prop :=
  ∃ a ∈ r, ∃ b ∈ r, ∃ c ∈ r, t = ⟨a.index, b.index, c.index⟩ ∧ eps < Node.turn a b c

theorem turnedJoins {eps : α} {r : Ring α} {t : Triangle} (turned : Turned eps r t) : Joins r t := by
  obtain ⟨a, first, b, second, c, third, rfl, -⟩ := turned
  intro i corner
  simp only [Triangle.toList, List.mem_cons, List.not_mem_nil, or_false] at corner
  rcases corner with rfl | rfl | rfl
  · exact ⟨_, first, rfl⟩
  · exact ⟨_, second, rfl⟩
  · exact ⟨_, third, rfl⟩

theorem turnedSubset {eps : α} {r s : Ring α} {t : Triangle} (turned : Turned eps r t) (subset : r ⊆ s) :
    Turned eps s t := by
  obtain ⟨a, first, b, second, c, third, rest⟩ := turned
  exact ⟨a, subset first, b, subset second, c, subset third, rest⟩

theorem cornerTurned {eps : α} {r : Ring α} {c : Corner α} (mem : c ∈ corners r) (turn : eps < c.turn) :
    Turned eps r c.triangle := by
  obtain ⟨before, node, after⟩ := cornersInside mem
  exact ⟨_, before, _, node, _, after, rfl, turn⟩

theorem collapseBegun (eps : α) (a : Node α) (l : List (Node α)) : ∃ r, collapse eps a l = a :: r := by
  induction l with
  | nil => exact ⟨[], rfl⟩
  | cons b l ih =>
    rw [collapse]
    split
    · exact ih
    · exact ⟨_, rfl⟩

theorem collapseSubset (eps : α) (a : Node α) (l : List (Node α)) : collapse eps a l ⊆ a :: l := by
  induction l generalizing a with
  | nil => exact fun _ => id
  | cons b l ih =>
    unfold collapse
    split
    · intro x mem
      have kept := ih a mem
      grind
    · exact List.cons_subset_cons a (ih b)

theorem closeSubset (eps : α) (r : Ring α) : close eps r ⊆ r := by
  unfold close
  split
  · exact nofun
  · rename_i a l
    split
    · rename_i z last
      have inside : z ∈ l := List.mem_of_getLast? last
      split
      · exact List.cons_subset.mpr ⟨List.mem_cons_of_mem _ inside,
          fun x mem => List.mem_cons_of_mem _ (List.dropLast_subset l mem)⟩
      · exact fun _ => id
    · exact List.cons_subset.mpr ⟨List.mem_cons_self .., nofun⟩

theorem distinctSubset {eps : α} {r kept : Ring α} (found : r.distinct? eps = some kept) :
    kept ⊆ r := by
  unfold distinct? at found
  split at found
  · cases found
  · rename_i a l
    dsimp only at found
    split at found
    · cases found
      exact fun x mem => collapseSubset eps a l (closeSubset eps _ mem)
    · cases found

theorem lastTurned (eps : α) (r : Ring α) : ∀ t ∈ lastTriangle eps r, Turned eps r t := by
  unfold lastTriangle
  split
  · rename_i c cs found
    split
    · rename_i turn
      intro t mem
      cases List.mem_singleton.mp mem
      exact cornerTurned (by rw [found]; exact List.mem_cons_self ..) turn
    · exact nofun
  · exact nofun

theorem clipTurned {eps : α} {n : Nat} {r : Ring α} {ts : List Triangle}
    (done : clip eps n r = .ok ts) : ∀ t ∈ ts, Turned eps r t := by
  induction n generalizing r ts with
  | zero =>
    cases done
    exact lastTurned eps r
  | succ n ih =>
    unfold clip at done
    dsimp only at done
    split at done
    · rename_i i ear
      cases rest : clip eps n (r.eraseIdx i) with
      | error left =>
        rw [rest] at done
        cases done
      | ok cut =>
        rw [rest] at done
        cases done
        intro t mem
        rcases List.mem_append.mp mem with first | later
        · obtain ⟨c, place, turn, -⟩ := earChosen ear
          rw [place] at first
          cases List.mem_singleton.mp first
          exact cornerTurned (List.mem_of_getElem? place) turn
        · exact turnedSubset (ih rest t later) (List.eraseIdx_subset ..)
    · split at done
      · rename_i i flat
        intro t mem
        exact turnedSubset (ih done t mem) (List.eraseIdx_subset ..)
      · cases done

end Ring

namespace Triangulation
open SceneStream.Geometry.Ring

theorem piecesSubset {β : Type} (sizes : List Nat) (l : List β) :
    ∀ piece ∈ pieces sizes l, piece ⊆ l := by
  induction sizes generalizing l with
  | nil => exact nofun
  | cons n sizes ih =>
    intro piece mem
    rcases List.mem_cons.mp mem with rfl | later
    · exact List.take_subset n l
    · exact fun b inside => List.drop_subset n l (ih _ piece later inside)

variable [Scalar α]

theorem holeSubset {eps : α} {r kept : Ring α} (found : hole? eps r = some kept) : kept ⊆ r := by
  simp only [hole?, bind, Option.bind_eq_some_iff] at found
  obtain ⟨d, distinct, rest⟩ := found
  have inside := distinctSubset distinct
  split at rest
  · cases rest
  · cases rest
    refine fun x mem => inside ?_
    have turned := startSubset _ _ mem
    split at turned
    · exact reversedSubset d turned
    · exact turned

theorem attachSubset {eps : α} {outer joined : Ring α} {hole : Nat × Ring α}
    (done : attach eps outer hole = .ok joined) : joined ⊆ outer ++ hole.2 := by
  unfold attach at done
  split at done
  · cases done
    exact List.subset_append_left ..
  · split at done
    · cases done
      exact joinSubset ..
    · cases done

theorem attachAllSubset {eps : α} {all : List (Node α)} {holes : List (Nat × Ring α)}
    (inside : ∀ h ∈ holes, h.2 ⊆ all) {outer joined : Ring α} (start : outer ⊆ all)
    (done : holes.foldlM (attach eps) outer = .ok joined) : joined ⊆ all := by
  induction holes generalizing outer with
  | nil =>
    cases done
    exact start
  | cons h holes ih =>
    obtain ⟨next, first, rest⟩ := okBind done
    refine ih (fun g mem => inside g (List.mem_cons_of_mem _ mem)) (fun x mem => ?_) rest
    exact (List.mem_append.mp (attachSubset first mem)).elim (fun old => start old)
      fun new => inside h (List.mem_cons_self ..) new

/-- The ring that corners are cut off from: the outer loop, with the holes joined to it. -/
def joined (eps : α) (outer : Ring α) (holes : List (Nat × Ring α)) : Except TriangulationFault (Ring α) := do
  let some outer := outer.distinct? eps | throw .degenerate
  let holes := holes.filterMap fun (i, r) => (hole? eps r).map (i, ·)
  (holes.mergeSort before).foldlM (attach eps) outer

section Joined
variable {eps : α} {outer ring : Ring α} {holes : List (Nat × Ring α)}

theorem joinedParts (done : joined eps outer holes = .ok ring) : ∃ kept, outer.distinct? eps = some kept ∧
    ((holes.filterMap fun (i, r) => (hole? eps r).map (i, ·)).mergeSort before).foldlM (attach eps) kept = .ok ring := by
  unfold joined at done
  split at done
  · rename_i kept found
    exact ⟨kept, found, done⟩
  · cases done

theorem ringsClipped {ts : List Triangle} (done : ofRings eps outer holes = .ok ts) : ts ≠ [] ∧
    ∃ ring, joined eps outer holes = .ok ring ∧ ring.clip eps (ring.length - 3) = .ok ts := by
  unfold ofRings at done
  split at done
  · rename_i kept found
    dsimp only at done
    split at done
    · cases done
    · obtain ⟨ring, attached, last⟩ := okBind done
      have whole : joined eps outer holes = .ok ring := by
        rw [joined, found]
        exact attached
      cases clipped : ring.clip eps (ring.length - 3) with
      | error left =>
        rw [clipped] at last
        cases last
      | ok cut =>
        rw [clipped] at last
        cases cut with
        | nil => cases last
        | cons t ts =>
          cases last
          exact ⟨List.cons_ne_nil t ts, ring, whole, clipped⟩
  · cases done

theorem joinedSubset {all : List (Node α)} (start : outer ⊆ all) (inside : ∀ h ∈ holes, h.2 ⊆ all)
    (done : joined eps outer holes = .ok ring) : ring ⊆ all := by
  obtain ⟨kept, found, attached⟩ := joinedParts done
  refine attachAllSubset (fun h mem => ?_) (fun x mem => start (distinctSubset found mem)) attached
  obtain ⟨⟨i, r⟩, given, made⟩ := List.mem_filterMap.mp (List.mem_mergeSort.mp mem)
  obtain ⟨k, hole, rfl⟩ := Option.map_eq_some_iff.mp made
  exact fun x mem => inside (i, r) given (holeSubset hole mem)

theorem ringsTurned {all : List (Node α)} {ts : List Triangle} (start : outer ⊆ all) (inside : ∀ h ∈ holes, h.2 ⊆ all)
    (done : ofRings eps outer holes = .ok ts) : ∀ t ∈ ts, Turned eps all t := by
  obtain ⟨-, ring, whole, clipped⟩ := ringsClipped done
  exact fun t mem => turnedSubset (clipTurned clipped t mem) (joinedSubset start inside whole)

end Joined

/-- The vertices of a polygon in its plane. -/
def projected (plane : Plane) (points : List (Vec α)) : List (Node α) :=
  points.zipIdx.map fun (p, i) => plane.project i p

/-- Nodes keep the index of their point through every step. -/
theorem projectedIndex {plane : Plane} {points : List (Vec α)} {a : Node α} (mem : a ∈ projected plane points) :
    ∃ p, points[a.index]? = some p ∧ a = plane.project a.index p := by
  obtain ⟨⟨p, k⟩, place, rfl⟩ := List.mem_map.mp mem
  exact ⟨p, List.mem_zipIdx_iff_getElem?.mp place, rfl⟩

theorem loopsSubset {β : Type} {sizes : List Nat} {all outer : List β} {holes : List (List β)}
    (cut : pieces sizes all = outer :: holes) :
    outer ⊆ all ∧ ∀ h ∈ (holes.zipIdx 1).map fun (r, i) => (i, r), h.2 ⊆ all := by
  have part := piecesSubset sizes all
  rw [cut, List.forall_mem_cons] at part
  refine ⟨part.1, fun h mem => ?_⟩
  obtain ⟨⟨r, k⟩, place, rfl⟩ := List.mem_map.mp mem
  exact part.2 r (List.fst_mem_of_mem_zipIdx place)

theorem piecesTurned {eps : α} {plane : Plane} {points : List (Vec α)} {sizes : List Nat}
    {outer : Ring α} {holes : List (Ring α)} {ts : List Triangle}
    (cut : pieces sizes (projected plane points) = outer :: holes)
    (done : ofRings eps outer ((holes.zipIdx 1).map fun (r, i) => (i, r)) = .ok ts) :
    ∀ t ∈ ts, Turned eps (projected plane points) t :=
  ringsTurned (loopsSubset cut).1 (loopsSubset cut).2 done

theorem sizesLarge {sizes : List Nat} (large : sizes.zipIdx.find? (·.1 < 3) = none) : ∀ n ∈ sizes, 3 ≤ n := by
  intro n mem
  obtain ⟨i, inside, rfl⟩ := List.getElem_of_mem mem
  have entry := List.find?_eq_none.mp large (sizes[i], i)
    (List.mem_zipIdx_iff_getElem?.mpr (List.getElem?_eq_getElem inside))
  simpa using entry

end Triangulation

theorem triangulateParts [Scalar α] {eps : α} {points : List (Vec α)} {loops : List Nat} {ts : List Triangle}
    (done : triangulate eps points loops = .ok ts) :
    loops.sum = points.length ∧ (∀ n ∈ loops, 3 ≤ n) ∧ ∃ outer holes,
      Triangulation.pieces loops
        (Triangulation.projected (.of (loopNormal (points.take (loops.headD 0)))) points) = outer :: holes ∧
      Triangulation.ofRings eps outer ((holes.zipIdx 1).map fun (r, i) => (i, r)) = .ok ts := by
  unfold triangulate at done
  dsimp only at done
  split at done
  · cases done
  · rename_i sizes
    have same := Decidable.not_not.mp sizes
    split at done
    · cases done
    · rename_i large
      split at done
      · cases done
      · split at done
        · cases done
        · rename_i outer holes cut
          split at done
          · cases done
          · exact ⟨same, Triangulation.sizesLarge large, outer, holes, cut, done⟩

structure Triangulated {α : Type} (points : List (Vec α)) (loops : List Nat) (ts : List Triangle) :
    Prop where
  sizes : loops.sum = points.length
  enough : 3 ≤ points.length
  inside : ∀ i ∈ ts.flatMap Triangle.toList, i < points.length

theorem triangulateOk [Scalar α] {eps : α} {points : List (Vec α)} {loops : List Nat}
    {ts : List Triangle} (done : triangulate eps points loops = .ok ts) :
    Triangulated points loops ts := by
  obtain ⟨same, large, outer, holes, cut, rest⟩ := triangulateParts done
  refine ⟨same, ?_, fun i mem => ?_⟩
  · cases loops with
    | nil => cases cut
    | cons n sizes =>
      have first := large n (List.mem_cons_self ..)
      rw [← same, List.sum_cons]
      omega
  · obtain ⟨t, inside, corner⟩ := List.mem_flatMap.mp mem
    obtain ⟨a, node, rfl⟩ := Ring.turnedJoins (Triangulation.piecesTurned cut rest t inside) i corner
    obtain ⟨p, place, -⟩ := Triangulation.projectedIndex node
    exact (List.getElem?_eq_some_iff.mp place).1

end SceneStream.Geometry
