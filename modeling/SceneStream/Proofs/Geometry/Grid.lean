import SceneStream.Geometry.Nurbs
import SceneStream.Geometry.Patch
import SceneStream.Geometry.Quadric
import SceneStream.Proofs.Work

/-! Sizes of grids, and of what is blended over them: one element for each sample. -/
namespace SceneStream.Geometry
open SceneStream.Outcome (okBind)

structure Grid.Full {α : Type} (tu tv : Nat) (g : Grid α) : Prop where
  uCount : g.uCount = tu + 1
  vCount : g.vCount = tv + 1
  points : g.points.length = (tu + 1) * (tv + 1)
  normals : g.normals.length = (tu + 1) * (tv + 1)

theorem lengthEach {α β : Type} {l : List α} {f : α → List β} {n : Nat}
    (each : ∀ a ∈ l, (f a).length = n) : (l.flatMap f).length = l.length * n := by
  induction l with
  | nil => simp
  | cons a l ih =>
    rw [List.flatMap_cons, List.length_append, each a (List.mem_cons_self ..),
      ih fun b mem => each b (List.mem_cons_of_mem _ mem), List.length_cons, Nat.succ_mul,
      Nat.add_comm]

theorem elementAt {α β : Type} {l : List α} {f : α → List β} {width : Nat} (each : ∀ a ∈ l, (f a).length = width)
    {n : Nat} {a : α} (found : l[n]? = some a) : ((l.flatMap f).drop (n * width)).take width = f a := by
  induction l generalizing n with
  | nil => cases found
  | cons b l ih =>
    have first := each b (List.mem_cons_self ..)
    rw [List.flatMap_cons]
    cases n with
    | zero =>
      cases found
      rw [Nat.zero_mul, List.drop_zero, List.take_left' first]
    | succ n =>
      rw [Nat.succ_mul, Nat.add_comm, ← List.drop_drop, List.drop_left' first]
      exact ih (fun a mem => each a (List.mem_cons_of_mem _ mem)) found

theorem valueAt {α β : Type} {l : List α} {f : α → List β} {width : Nat} (each : ∀ a ∈ l, (f a).length = width)
    {n k : Nat} {a : α} (found : l[n]? = some a) (part : k < width) :
    (l.flatMap f)[n * width + k]? = (f a)[k]? := by
  rw [← elementAt each found, List.getElem?_take_of_lt part, List.getElem?_drop]

theorem inRow {i j width rows : Nat} (row : j < rows) (place : i < width) :
    j * width + i < width * rows := by
  have whole : (j + 1) * width ≤ rows * width := Nat.mul_le_mul_right _ row
  rw [Nat.add_mul, Nat.mul_comm rows] at whole
  omega

namespace Grid

theorem fillLength {β : Type} (uCount vCount : Nat) (given : List (Option β)) (fallback : β)
    (wide : 0 < uCount) (sized : given.length = uCount * vCount) :
    (fill uCount vCount given fallback wide sized).length = uCount * vCount := by
  simp [fill, sized]

theorem sampleFull {α : Type} [Scalar α] (tu tv : Nat) (shape : α → α → Vec α × Option (Vec α))
    (fallback : Vec α) : (sample tu tv shape fallback).Full tu tv := by
  refine ⟨rfl, rfl, ?_, fillLength ..⟩
  simp [sample, parametersLength]

theorem trianglesInside (uCount vCount : Nat) :
    ∀ i ∈ (triangles uCount vCount).flatMap Triangle.toList, i < uCount * vCount := by
  intro k mem
  simp only [triangles, List.mem_flatMap, List.mem_range] at mem
  obtain ⟨t, ⟨j, row, i, column, half⟩, corner⟩ := mem
  have rows : (j + 2) * uCount ≤ vCount * uCount := Nat.mul_le_mul_right _ (by omega)
  rw [Nat.add_mul, Nat.mul_comm vCount] at rows
  generalize j * uCount = first at *
  generalize uCount * vCount = all at *
  simp only [List.mem_cons, List.not_mem_nil, or_false] at half
  rcases half with rfl | rfl
  all_goals
    simp only [Triangle.toList, List.mem_cons, List.not_mem_nil, or_false] at corner
    omega

theorem stripsInside (uCount vCount : Nat) :
    ∀ i ∈ (strips uCount vCount).flatten, i < uCount * vCount := by
  intro k mem
  unfold strips at mem
  split at mem
  · cases mem
  · simp only [List.mem_flatten, List.mem_map, List.mem_range] at mem
    obtain ⟨_, ⟨j, row, rfl⟩, place⟩ := mem
    simp only [strip, List.mem_flatMap, List.mem_range, List.mem_cons, List.not_mem_nil,
      or_false] at place
    obtain ⟨i, column, either⟩ := place
    have rows : (j + 2) * uCount ≤ vCount * uCount := Nat.mul_le_mul_right _ (by omega)
    rw [Nat.add_mul, Nat.mul_comm vCount] at rows
    rw [Nat.add_mul] at either
    generalize j * uCount = first at *
    generalize uCount * vCount = all at *
    omega

end Grid

theorem triplesLength (ts : List Triangle) : (ts.flatMap Triangle.toList).length % 3 = 0 := by
  rw [lengthEach (n := 3) fun _ _ => rfl, Nat.mul_mod_left]

namespace Patch
variable {α : Type}

theorem quartersLength {values : List α} {width : Nat} (sized : values.length = 4 * width) :
    (quarters values width).x.length = width ∧ (quarters values width).y.length = width ∧
      (quarters values width).z.length = width ∧ (quarters values width).w.length = width := by
  simp only [quarters, List.length_take, List.length_drop, sized]
  omega

theorem quartersMap {β : Type} (g : β → List α) {width : Nat} (each : ∀ b, (g b).length = width) (corners : Quad β) :
    quarters (corners.toList.flatMap g) width = corners.map g := by
  have part {n : Nat} {b : β} (found : corners.toList[n]? = some b) := elementAt (fun b _ => each b) found
  simp only [quarters]
  rw [part (n := 0) rfl, part (n := 1) rfl, part (n := 2) rfl, part (n := 3) rfl]
  rfl

variable [Scalar α]

theorem bilinearAtLength {values : List α} {width : Nat} (sized : values.length = 4 * width)
    (u v : α) : (bilinearAt (quarters values width) u v).length = width := by
  obtain ⟨x, y, z, w⟩ := quartersLength sized
  simp [bilinearAt, x, y, z, w]

theorem bilinearBlendLength {values blended : List α} {width tu tv : Nat}
    (done : bilinearBlend values width tu tv = .ok blended) :
    blended.length = (tu + 1) * (tv + 1) * width := by
  unfold bilinearBlend at done
  dsimp only at done
  split at done
  · cases done
  · split at done
    · cases done
    · rename_i sized
      obtain ⟨_, -, last⟩ := okBind done
      cases last
      rw [lengthEach fun p _ => bilinearAtLength (Decidable.not_not.mp sized) p.1 p.2,
        Grid.parametersLength]

theorem bicubicBlendLength {control blended : List α} {width tu tv : Nat} {ub vb : Basis α}
    (done : bicubicBlend control width ub vb tu tv = .ok blended) :
    blended.length = (tu + 1) * (tv + 1) * width := by
  unfold bicubicBlend at done
  dsimp only at done
  split at done
  · cases done
  · split at done
    · obtain ⟨_, -, last⟩ := okBind done
      cases last
      rw [lengthEach (n := width) fun p _ => by simp [netColumns], Grid.parametersLength]
    · cases done

theorem bilinearGridFull {corners : Quad (Vec α)} {tu tv : Nat} {g : Grid α}
    (done : bilinearGrid corners tu tv = .ok g) : g.Full tu tv := by
  obtain ⟨_, -, last⟩ := okBind done
  cases last
  exact Grid.sampleFull ..

theorem bicubicGridFull {control : List (Vec α)} {ub vb : Basis α} {tu tv : Nat} {g : Grid α}
    (done : bicubicGrid control ub vb tu tv = .ok g) : g.Full tu tv := by
  unfold bicubicGrid at done
  split at done
  · obtain ⟨_, -, last⟩ := okBind done
    cases last
    exact Grid.sampleFull ..
  · cases done

end Patch

theorem Quadric.sampleFull {q : Quadric} {tu tv : Nat} {g : Grid Float}
    (done : q.sample tu tv = .ok g) : g.Full tu tv := by
  unfold sample at done
  dsimp only at done
  split at done
  · cases done
  · obtain ⟨_, -, next⟩ := okBind done
    obtain ⟨_, -, last⟩ := okBind next
    cases last
    exact Grid.sampleFull ..

end SceneStream.Geometry
