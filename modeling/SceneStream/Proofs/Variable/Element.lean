import SceneStream.Proofs.Variable

/-! Elements of a variable. What is selected from it are elements of the whole, each at the place where
the selection lists it. -/
namespace SceneStream

theorem Values.sliceSlice (v : Values) (a m b k : Nat) :
    (v.slice a m).slice b k = v.slice (a + b) (min k (m - b)) := by
  cases v <;> simp [slice, List.drop_take, List.drop_drop, List.take_take]

theorem Values.sliceNothing (v : Values) (a : Nat) : v.slice a 0 = v.emptyLike := by
  cases v <;> simp [slice, emptyLike]

namespace Variable

def element (v : Variable) (i : Nat) : Values := v.values.slice (i * v.width) v.width

theorem constantElement (v : Variable) :
    v.constant.slice (0 * v.width) v.width = v.element 0 := by
  rw [constant, element, Values.sliceSlice]
  simp

theorem uniformElement {n face : Nat} {v : Variable} (fits : v.Fits n) (inside : face < n) :
    (v.uniform face).slice (0 * v.width) v.width = v.element face := by
  unfold uniform element
  obtain none | wide := Nat.eq_zero_or_pos v.width
  · have few : ¬ face < v.count := by simp [count, none]
    rw [if_neg few, none]
    cases v.values <;> simp [Values.slice, Values.emptyLike]
  · rw [if_pos (by rw [fitsCount fits wide]; exact inside), Values.sliceSlice]
    simp

theorem rangeElement {n offset count k : Nat} {v : Variable} (fits : v.Fits n)
    (inside : offset + count ≤ n) (below : k < count) :
    (v.range offset count).slice (k * v.width) v.width = v.element (offset + k) := by
  unfold range element
  rw [Values.sliceSlice, ← Nat.add_mul]
  obtain none | wide := Nat.eq_zero_or_pos v.width
  · simp [none]
  · rw [fitsCount fits wide, Nat.min_eq_left (by omega : count ≤ n - offset), ← Nat.sub_mul]
    have own : 1 * v.width ≤ (count - k) * v.width := Nat.mul_le_mul_right _ (by omega)
    rw [Nat.min_eq_left (by omega)]

theorem pickedElement {β : Type} (l : List β) {width : Nat} {indices : List Nat}
    (inside : ∀ i ∈ indices, (i + 1) * width ≤ l.length) {k i : Nat} (listed : indices[k]? = some i) :
    ((indices.flatMap fun i => (l.drop (i * width)).take width).drop (k * width)).take width =
      (l.drop (i * width)).take width := by
  induction indices generalizing k with
  | nil => simp at listed
  | cons j indices ih =>
    have first := inside j (List.mem_cons_self ..)
    rw [Nat.add_mul] at first
    have own : ((l.drop (j * width)).take width).length = width := by
      rw [List.length_take, List.length_drop]
      omega
    rw [List.flatMap_cons]
    cases k with
    | zero =>
      cases Option.some.inj listed
      rw [Nat.zero_mul, List.drop_zero, List.take_append_of_le_length (Nat.le_of_eq own.symm),
        List.take_of_length_le (Nat.le_of_eq own)]
    | succ k =>
      have later := ih (fun i mem => inside i (List.mem_cons_of_mem _ mem)) listed
      rw [Nat.succ_mul, Nat.add_comm, ← List.drop_drop, List.drop_append_of_le_length
        (Nat.le_of_eq own.symm), List.drop_of_length_le (Nat.le_of_eq own), List.nil_append, later]

theorem gatherElement {n k i : Nat} {v : Variable} {indices : List Nat} (fits : v.Fits n)
    (inside : ∀ i ∈ indices, i < n) (listed : indices[k]? = some i) :
    (v.gather indices).slice (k * v.width) v.width = v.element i := by
  unfold element
  obtain none | wide := Nat.eq_zero_or_pos v.width
  · rw [none, Values.sliceNothing, Values.sliceNothing]
    unfold gather
    cases v.values <;> rfl
  · obtain ⟨all, rows⟩ := gatherInside fits wide inside
    unfold gather
    simp only [all]
    cases values : v.values with
    | integers l =>
      rw [values] at rows
      exact congrArg Values.integers (pickedElement l rows listed)
    | floats l =>
      rw [values] at rows
      exact congrArg Values.floats (pickedElement l rows listed)
    | strings l =>
      rw [values] at rows
      exact congrArg Values.strings (pickedElement l rows listed)

end Variable

/-- The element of the whole that a selection has at a place. -/
def FaceSelection.source? (s : FaceSelection) (c : StorageClass) (k : Nat) : Option Nat :=
  match c with
  | .constant => if k = 0 then some 0 else none
  | .uniform => if k = 0 then some s.uniform else none
  | .varying => s.varying[k]?
  | .vertex => s.vertex[k]?
  | .faceVarying => if k < s.faceVarying.2 then some (s.faceVarying.1 + k) else none
  | .faceVertex => if k < s.faceVertex.2 then some (s.faceVertex.1 + k) else none

theorem FaceSelection.sourceBelow (s : FaceSelection) (c : StorageClass) (k : Nat) :
    (s.source? c k).isSome ↔ k < s.elements c := by
  cases c with
  | varying | vertex => simp [source?, elements]
  | constant | uniform | faceVarying | faceVertex =>
    simp only [source?, elements]
    split <;> simp_all

theorem FaceSelection.sourceInside {counts : ValueCounts} {s : FaceSelection}
    (inside : s.Inside counts) {c : StorageClass} {k i : Nat} (source : s.source? c k = some i) :
    i < counts.get c := by
  cases c with
  | constant =>
    cases (Option.ite_none_right_eq_some.mp source).2
    exact Nat.one_pos
  | uniform =>
    cases (Option.ite_none_right_eq_some.mp source).2
    exact inside.uniform
  | varying => exact inside.varying i (List.mem_of_getElem? source)
  | vertex => exact inside.vertex i (List.mem_of_getElem? source)
  | faceVarying =>
    obtain ⟨below, same⟩ := Option.ite_none_right_eq_some.mp source
    cases same
    exact Nat.lt_of_lt_of_le (Nat.add_lt_add_left below _) inside.faceVarying
  | faceVertex =>
    obtain ⟨below, same⟩ := Option.ite_none_right_eq_some.mp source
    cases same
    exact Nat.lt_of_lt_of_le (Nat.add_lt_add_left below _) inside.faceVertex

theorem Variable.selectElement {counts : ValueCounts} {v : Variable} {s : FaceSelection}
    (fits : v.Fits (counts.get v.storage)) (inside : s.Inside counts) {k i : Nat}
    (source : s.source? v.storage k = some i) : (v.select s).element k = v.element i := by
  show (v.select s).values.slice (k * v.width) v.width = _
  cases storage : v.storage with
  | constant =>
    rw [storage] at source
    obtain ⟨rfl, same⟩ := Option.ite_none_right_eq_some.mp source
    cases same
    simpa only [select, storage] using constantElement v
  | uniform =>
    rw [storage] at source fits
    obtain ⟨rfl, same⟩ := Option.ite_none_right_eq_some.mp source
    cases same
    simpa only [select, storage] using uniformElement fits inside.uniform
  | varying =>
    rw [storage] at source fits
    simpa only [select, storage] using gatherElement fits inside.varying source
  | vertex =>
    rw [storage] at source fits
    simpa only [select, storage] using gatherElement fits inside.vertex source
  | faceVarying =>
    rw [storage] at source fits
    obtain ⟨below, same⟩ := Option.ite_none_right_eq_some.mp source
    cases same
    simpa only [select, storage] using rangeElement fits inside.faceVarying below
  | faceVertex =>
    rw [storage] at source fits
    obtain ⟨below, same⟩ := Option.ite_none_right_eq_some.mp source
    cases same
    simpa only [select, storage] using rangeElement fits inside.faceVertex below

end SceneStream
