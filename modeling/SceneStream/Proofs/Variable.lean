import SceneStream.Proofs.Declaration.Growth
import SceneStream.Proofs.Request.Expected
import SceneStream.Variable

/-! What it means that a variable is bound: its values are as many as its declaration and the primitive
ask for, and what is picked out for one face is as many as the face asks for. -/
namespace SceneStream

namespace Declaring
variable {α β : Type} {E : Problem → Dictionary → Prop} {P : α → Dictionary → Prop}
  {Q : β → Dictionary → Prop} {d : Dictionary}

/-- The dictionary has only grown, and then either `P` holds of the value or `E` of the problem. -/
structure Ends (E : Problem → Dictionary → Prop) (P : α → Dictionary → Prop) (m : Declaring α)
    (d : Dictionary) : Prop where
  grows : d.Grows (m.run d).2
  outcome : Outcome.Ends (E · (m.run d).2) (P · (m.run d).2) (m.run d).1

theorem endsRun {m : Declaring α} {x : Outcome α} {e : Dictionary} (run : m.run d = (x, e))
    (grows : d.Grows e) (outcome : Outcome.Ends (E · e) (P · e) x) : Ends E P m d := by
  refine ⟨?_, ?_⟩ <;> rw [run] <;> assumption

theorem endsLift {x : Outcome α} (outcome : Outcome.Ends (E · d) (P · d) x) :
    Ends E P (lift x) d := endsRun rfl .refl outcome

theorem endsPure {a : α} (holds : P a d) : Ends E P (pure a) d := endsRun rfl .refl holds

theorem endsBind {m : Declaring α} {f : α → Declaring β} (first : Ends E P m d)
    (next : ∀ a e, m.run d = (.ok a, e) → d.Grows e → P a e → Ends E Q (f a) e) :
    Ends E Q (m >>= f) d := by
  have split := Work.runBind m f d
  obtain ⟨grows, outcome⟩ := first
  cases run : m.run d with
  | mk x e =>
    rw [run] at split grows outcome
    cases x with
    | error p => exact endsRun split grows outcome
    | ok a =>
      have after := next a e run grows outcome
      exact endsRun split (Dictionary.growsTrans grows after.grows) after.outcome

theorem endsGet {f : Dictionary → Declaring β} (next : Ends E Q (f d) d) : Ends E Q (get >>= f) d :=
  endsRun (Work.runBind get f d) next.grows next.outcome

theorem endsLiftBind {x : Outcome α} {R : α → Prop} {f : α → Declaring β}
    (first : Outcome.Ends (E · d) R x) (next : ∀ a, x = .ok a → R a → Ends E Q (f a) d) :
    Ends E Q (lift x >>= f) d := by
  cases x with
  | ok a => exact next a rfl first
  | error p => exact endsRun rfl .refl first

theorem endsMono {E' : Problem → Dictionary → Prop} {P' : α → Dictionary → Prop} {m : Declaring α}
    (ends : Ends E P m d) (problems : ∀ p e, E p e → E' p e) (values : ∀ a e, P a e → P' a e) :
    Ends E' P' m d :=
  ⟨ends.grows, Outcome.endsMono ends.outcome (fun p => problems p _) fun a => values a _⟩

theorem endsFoldlM {f : β → α → Declaring β} {l : List α}
    (each : ∀ e, d.Grows e → ∀ b, Q b e → ∀ a ∈ l, Ends E Q (f b a) e) {b : β} (start : Q b d) :
    Ends E Q (l.foldlM f b) d := by
  induction l generalizing b d with
  | nil => exact endsPure start
  | cons a l ih =>
    rw [List.foldlM_cons]
    refine endsBind (each d .refl b start a (List.mem_cons_self ..)) fun c e _ grows holds => ?_
    refine ih (fun g later b holds a mem => ?_) holds
    exact each g (Dictionary.growsTrans grows later) b holds a (List.mem_cons_of_mem _ mem)

theorem resolveRun (token : String) (d : Dictionary) :
    (resolve token).run d = match d.resolve token with
      | .error p => (.error p, d)
      | .ok (e, _, x) => (.ok x, e) := by
  simp only [resolve, Work.runBind, Work.runGet]
  cases d.resolve token <;> rfl

theorem resolveEnds (token : String) (d : Dictionary) :
    Ends (fun p _ => p.Expected) (fun x e => e.Stands x) (resolve token) d := by
  have run := resolveRun token d
  have safe := Dictionary.safeResolve d token
  cases found : d.resolve token with
  | error p =>
    rw [found] at run safe
    exact endsRun run .refl safe
  | ok y =>
    obtain ⟨e, n, x⟩ := y
    rw [found] at run
    obtain ⟨grows, stands⟩ := Dictionary.resolveOk found
    exact endsRun run grows stands

end Declaring

namespace Values

theorem sliceLength (start count : Nat) (v : Values) :
    (v.slice start count).length = min count (v.length - start) := by
  cases v <;> simp [slice, length]

theorem sliceBasic (start count : Nat) (v : Values) : (v.slice start count).basic = v.basic := by
  cases v <;> rfl

theorem emptyBasic (v : Values) : v.emptyLike.basic = v.basic := by cases v <;> rfl

theorem convertBasic {target : BasicType} {v w : Values} (done : v.convert? target = some w) :
    w.basic = target := by
  unfold convert? at done
  split at done
  · obtain ⟨l, -, rfl⟩ := Option.map_eq_some_iff.mp done
    rfl
  · obtain ⟨l, -, rfl⟩ := Option.map_eq_some_iff.mp done
    rfl
  · split at done
    · cases done
      rfl
    · split at done
      · cases done
        rfl
      · cases done

theorem doublesLength {v : Values} (numbers : v.basic ≠ .string) : v.doubles.length = v.length := by
  cases v with
  | integers l => simp [doubles, length]
  | floats l => simp [doubles, length]
  | strings l => exact absurd rfl numbers

end Values

namespace Named
variable {α β : Type}

theorem memInsert {m : Named α} {name : String} {x : α} {y : String × α}
    (mem : y ∈ m.insert name x) : y = (name, x) ∨ y ∈ m := by
  induction m with
  | nil => exact .inl (List.mem_singleton.mp mem)
  | cons z m ih =>
    unfold insert at mem
    split at mem
    · exact List.mem_cons.mp mem
    · split at mem
      · exact (List.mem_cons.mp mem).imp_right (List.mem_cons_of_mem _)
      · rcases List.mem_cons.mp mem with rfl | later
        · exact .inr (List.mem_cons_self ..)
        · exact (ih later).imp_right (List.mem_cons_of_mem _)

theorem memGet {m : Named α} {name : String} {x : α} (found : m.get? name = some x) :
    (name, x) ∈ m := by
  obtain ⟨before, after, split, -⟩ := List.lookup_eq_some_iff.mp found
  simp [split]

theorem getCons (k : String) (y : α) (m : Named α) (other : String) :
    get? ((k, y) :: m) other = if other = k then some y else m.get? other := by
  simp only [get?, List.lookup_cons]
  split <;> simp_all

theorem getInsert (m : Named α) (name other : String) (x : α) :
    (m.insert name x).get? other = if other = name then some x else m.get? other := by
  induction m with
  | nil => exact getCons name x [] other
  | cons z m ih =>
    obtain ⟨k, y⟩ := z
    unfold insert
    split
    · exact getCons name x _ other
    · split
      · rename_i same
        rw [getCons, getCons, ← same]
        split <;> rfl
      · rename_i apart
        rw [getCons, getCons, ih]
        by_cases here : other = k
        · rw [if_pos here, if_pos here, if_neg (here ▸ Ne.symm apart)]
        · rw [if_neg here, if_neg here]

theorem getErase (m : Named α) (name other : String) :
    (m.erase name).get? other = if other = name then none else m.get? other := by
  induction m with
  | nil => exact (ite_self none).symm
  | cons z m ih =>
    obtain ⟨k, y⟩ := z
    by_cases same : k = name
    · have gone : erase ((k, y) :: m) name = erase m name := by simp [erase, same]
      rw [gone, ih, getCons, same]
      split <;> rfl
    · have kept : erase ((k, y) :: m) name = (k, y) :: erase m name := by simp [erase, same]
      rw [kept, getCons, getCons, ih]
      by_cases here : other = k
      · rw [if_pos here, if_pos here, if_neg (here ▸ same)]
      · rw [if_neg here, if_neg here]

theorem getMap (m : Named α) (f : α → β) (name : String) :
    get? (m.map fun (k, x) => (k, f x)) name = (m.get? name).map f := by
  induction m with
  | nil => rfl
  | cons z m ih =>
    obtain ⟨k, x⟩ := z
    simp only [get?, List.map_cons, List.lookup_cons] at ih ⊢
    cases name == k with
    | true => rfl
    | false => exact ih

end Named

namespace Variable

/-- Holds `n` elements, of the type of its values. -/
structure Fits (n : Nat) (v : Variable) : Prop where
  basic : v.values.basic = v.kind.basic
  length : v.values.length = n * v.width

theorem basicText {k : TypeKind} : k.basic = .string ↔ k = .string := by cases k <;> decide

theorem fitsNumbers {n : Nat} {v : Variable} (fits : v.Fits n) (numbers : v.kind ≠ .string) :
    v.doubles.length = n * v.width := by
  have other : v.values.basic ≠ .string := by
    rw [fits.basic]
    exact fun text => numbers (basicText.mp text)
  exact (Values.doublesLength other).trans fits.length

theorem fitsText {n : Nat} {v : Variable} (fits : v.Fits n) (text : v.kind = .string) :
    v.doubles = [] := by
  have strings : v.values.basic = .string := by rw [fits.basic, text]; rfl
  unfold doubles
  cases values : v.values with
  | strings l => rfl
  | integers l | floats l =>
    rw [values] at strings
    cases strings

theorem fitsCount {n : Nat} {v : Variable} (fits : v.Fits n) (wide : 0 < v.width) : v.count = n := by
  rw [count, fits.length, Nat.mul_div_cancel _ wide]

end Variable

/-- One element for the whole of a face or a patch. -/
def StorageClass.isWhole : StorageClass → Bool
  | constant | uniform => true
  | _ => false

def FaceSelection.elements (s : FaceSelection) : StorageClass → Nat
  | .constant | .uniform => 1
  | .varying => s.varying.length
  | .vertex => s.vertex.length
  | .faceVarying => s.faceVarying.2
  | .faceVertex => s.faceVertex.2

structure FaceSelection.Inside (counts : ValueCounts) (s : FaceSelection) : Prop where
  uniform : s.uniform < counts.uniform
  varying : ∀ i ∈ s.varying, i < counts.varying
  vertex : ∀ i ∈ s.vertex, i < counts.vertex
  faceVarying : s.faceVarying.1 + s.faceVarying.2 ≤ counts.faceVarying
  faceVertex : s.faceVertex.1 + s.faceVertex.2 ≤ counts.faceVertex

namespace Variable

theorem constantFits {v : Variable} (fits : v.Fits 1) : v.constant.length = 1 * v.width := by
  rw [constant, Values.sliceLength, fits.length]
  omega

theorem uniformFits {n face : Nat} {v : Variable} (fits : v.Fits n) (inside : face < n) :
    (v.uniform face).length = 1 * v.width := by
  obtain none | wide := Nat.eq_zero_or_pos v.width
  · have few : ¬ face < v.count := by simp [count, none]
    rw [uniform, if_neg few, none]
    cases v.values <;> rfl
  · rw [uniform, if_pos (by rw [fitsCount fits wide]; exact inside), Values.sliceLength, fits.length]
    have rows : (face + 1) * v.width ≤ n * v.width := Nat.mul_le_mul_right _ inside
    rw [Nat.add_mul] at rows
    omega

theorem pickedLength {β : Type} (l : List β) (width : Nat) (indices : List Nat)
    (inside : ∀ i ∈ indices, (i + 1) * width ≤ l.length) :
    (indices.flatMap fun i => (l.drop (i * width)).take width).length = indices.length * width := by
  induction indices with
  | nil => simp
  | cons i indices ih =>
    have first := inside i (List.mem_cons_self ..)
    have rest := ih fun j mem => inside j (List.mem_cons_of_mem _ mem)
    rw [Nat.add_mul] at first
    simp only [List.flatMap_cons, List.length_append, List.length_take, List.length_drop, rest,
      List.length_cons, Nat.add_mul]
    omega

theorem gatherInside {n : Nat} {v : Variable} {indices : List Nat} (fits : v.Fits n) (wide : 0 < v.width)
    (inside : ∀ i ∈ indices, i < n) :
    indices.filter (· < v.count) = indices ∧ ∀ i ∈ indices, (i + 1) * v.width ≤ v.values.length := by
  rw [fitsCount fits wide, List.filter_eq_self, fits.length]
  exact ⟨fun i mem => decide_eq_true (inside i mem), fun i mem => Nat.mul_le_mul_right _ (inside i mem)⟩

theorem gatherFits {n : Nat} {v : Variable} {indices : List Nat} (fits : v.Fits n)
    (inside : ∀ i ∈ indices, i < n) : (v.gather indices).length = indices.length * v.width := by
  obtain none | wide := Nat.eq_zero_or_pos v.width
  · have nothing : indices.filter (· < v.count) = [] := by simp [count, none]
    unfold gather
    simp only [nothing, none, List.flatMap_nil, Nat.mul_zero]
    cases v.values <;> rfl
  · obtain ⟨all, rows⟩ := gatherInside fits wide inside
    unfold gather
    simp only [all]
    cases values : v.values with
    | integers l | floats l | strings l =>
      rw [values] at rows
      exact pickedLength l v.width indices rows

theorem rangeFits {n offset count : Nat} {v : Variable} (fits : v.Fits n)
    (inside : offset + count ≤ n) : (v.range offset count).length = count * v.width := by
  rw [range, Values.sliceLength, fits.length]
  obtain none | wide := Nat.eq_zero_or_pos v.width
  · simp [none]
  · rw [fitsCount fits wide, Nat.min_eq_left (by omega : count ≤ n - offset), ← Nat.sub_mul]
    exact Nat.min_eq_left (Nat.mul_le_mul_right _ (by omega))

theorem gatherBasic (v : Variable) (indices : List Nat) :
    (v.gather indices).basic = v.values.basic := by
  unfold gather
  cases v.values <;> rfl

theorem selectBasic (v : Variable) (s : FaceSelection) :
    (v.select s).values.basic = v.values.basic := by
  unfold select
  cases v.storage with
  | constant | faceVarying | faceVertex => exact Values.sliceBasic ..
  | varying | vertex => exact gatherBasic ..
  | uniform =>
    simp only [uniform]
    split
    · exact Values.sliceBasic ..
    · exact Values.emptyBasic _

theorem selectWhole {counts : ValueCounts} {v : Variable} {s : FaceSelection}
    (fits : v.Fits (counts.get v.storage)) (inside : s.uniform < counts.uniform)
    (whole : v.storage.isWhole = true) : (v.select s).values.length = v.width := by
  cases storage : v.storage with
  | constant =>
    rw [storage] at fits
    simpa only [select, storage, Nat.one_mul] using constantFits fits
  | uniform =>
    rw [storage] at fits
    simpa only [select, storage, Nat.one_mul] using uniformFits fits inside
  | varying | vertex | faceVarying | faceVertex =>
    rw [storage] at whole
    cases whole

theorem selectFits {counts : ValueCounts} {v : Variable} {s : FaceSelection}
    (fits : v.Fits (counts.get v.storage)) (inside : s.Inside counts) :
    (v.select s).Fits (s.elements v.storage) := by
  refine ⟨(selectBasic v s).trans fits.basic, ?_⟩
  cases storage : v.storage with
  | constant =>
    rw [storage] at fits
    simpa only [select, storage, FaceSelection.elements] using constantFits fits
  | uniform =>
    rw [storage] at fits
    simpa only [select, storage, FaceSelection.elements] using uniformFits fits inside.uniform
  | varying =>
    rw [storage] at fits
    simpa only [select, storage, FaceSelection.elements] using gatherFits fits inside.varying
  | vertex =>
    rw [storage] at fits
    simpa only [select, storage, FaceSelection.elements] using gatherFits fits inside.vertex
  | faceVarying =>
    rw [storage] at fits
    simpa only [select, storage, FaceSelection.elements] using rangeFits fits inside.faceVarying
  | faceVertex =>
    rw [storage] at fits
    simpa only [select, storage, FaceSelection.elements] using rangeFits fits inside.faceVertex

end Variable

namespace Variables
open SceneStream.Declaring (Ends endsBind endsGet endsLiftBind endsPure endsFoldlM resolveEnds)

structure Made (counts : ValueCounts) (x : Declaration) (width : Nat) (v : Variable) : Prop where
  storage : v.storage = x.storage
  kind : v.kind = x.kind
  width : v.width = width
  fits : v.Fits (counts.get v.storage)

structure BoundBy (counts : ValueCounts) (d : Dictionary) (x : Declaration) (v : Variable) : Prop
    extends Made counts x (d.width x) v where
  stands : d.Stands x

def Bound (counts : ValueCounts) (d : Dictionary) (vars : Variables) : Prop :=
  ∀ y ∈ vars, ∃ x, x.name = y.1 ∧ BoundBy counts d x y.2

def Fit (counts : ValueCounts) (vars : Variables) : Prop :=
  ∀ y ∈ vars, y.2.Fits (counts.get y.2.storage)

theorem boundFit {counts : ValueCounts} {d : Dictionary} {vars : Variables}
    (bound : Bound counts d vars) : Fit counts vars := by
  intro y mem
  obtain ⟨x, -, source⟩ := bound y mem
  exact source.fits

theorem boundGrows {counts : ValueCounts} {d e : Dictionary} {vars : Variables}
    (bound : Bound counts d vars) (grows : d.Grows e) : Bound counts e vars := by
  intro y mem
  obtain ⟨x, name, source⟩ := bound y mem
  refine ⟨x, name, ⟨source.storage, source.kind, ?_, source.fits⟩, ?_⟩
  · rw [source.width, Dictionary.width, Dictionary.width, Dictionary.growsColorSamples grows]
  · exact Dictionary.growsStands grows source.stands

theorem checkEnds (x : Declaration) (width : Nat) (counts : ValueCounts) (p : Parameter) :
    Outcome.Yields (Made counts x width) (check x width counts p) := by
  unfold check
  dsimp only
  split
  · exact nofun
  · rename_i values converted
    split
    · rename_i length
      exact ⟨rfl, rfl, rfl, Values.convertBasic converted, length⟩
    · exact nofun

theorem bindEnds (counts : ValueCounts) (list : List TokenValue) (d : Dictionary) :
    Ends (fun p _ => p.Expected) (fun vars e => Bound counts e vars) (bind counts list) d := by
  refine endsFoldlM (fun e _ vars bound t _ => ?_) nofun
  refine endsBind (resolveEnds t.token e) fun x f _ grows stands => ?_
  refine endsGet ?_
  refine endsLiftBind (checkEnds x (f.width x) counts t.value) fun v _ made => ?_
  refine endsPure fun y mem => ?_
  rcases Named.memInsert mem with rfl | older
  · exact ⟨x, rfl, made, stands⟩
  · exact boundGrows bound grows y older

theorem selectFrom {vars : Variables} {s : FaceSelection} {y : String × Variable}
    (mem : y ∈ vars.select s) : ∃ v, (y.1, v) ∈ vars ∧ y.2 = v.select s := by
  obtain ⟨⟨name, v⟩, inside, rfl⟩ := List.mem_map.mp mem
  exact ⟨v, inside, rfl⟩

end Variables
end SceneStream
