import SceneStream.Declaration.Dictionary
import SceneStream.Proofs.Work

/-! How dictionaries change. Tokens that declare themselves only add to one; what a name stands for, and
how many samples a color has, is changed by nothing but the requests for it. -/
namespace SceneStream

namespace Declaration

theorem sizePositive {ds : List Char} {n : Nat} (read : size? ds = some n) : 0 < n := by
  unfold size? at read
  dsimp only at read
  split at read
  · cases read
  · rename_i fits
    cases read
    simp only [Bool.or_eq_true, beq_iff_eq, not_or] at fits
    omega

theorem bracketPositive {cs rest : List Char} {n : Nat} (read : bracket? cs = some (n, rest)) :
    0 < n := by
  unfold bracket? at read
  split at read
  · dsimp only at read
    split at read
    · obtain ⟨m, size, same⟩ := Option.map_eq_some_iff.mp read
      cases same
      exact sizePositive size
    · cases read
  · cases read
    exact Nat.one_pos

theorem typedPositive {storage : StorageClass} {cs : List Char} {w : Written}
    (read : typed? storage cs = some w) : 0 < w.size := by
  simp only [typed?, bind, Option.bind_eq_some_iff] at read
  obtain ⟨kind, -, ⟨size, rest⟩, bracket, name, -, last⟩ := read
  cases last
  exact bracketPositive bracket

theorem writtenPositive {text : String} {w : Written} (read : written? text = some w) :
    0 < w.size := by
  unfold written? at read
  dsimp only at read
  split at read
  · split at read
    · exact typedPositive read
    · cases read
  · cases read
  · exact typedPositive read

theorem tokenPositive {token : String} {x : Declaration} (read : ofToken? token = some x) :
    0 < x.size := by
  simp only [ofToken?, bind, Option.bind_eq_some_iff] at read
  obtain ⟨w, written, name, -, last⟩ := read
  cases last
  exact writtenPositive written

theorem textPositive {name text : String} {x : Declaration} (read : ofText name text = .ok x) :
    0 < x.size := by
  unfold ofText at read
  dsimp only at read
  split at read
  · cases read
  · split at read
    · cases read
    · rename_i w written
      split at read
      · cases read
      · cases read
        exact writtenPositive written

theorem textName {name text : String} {x : Declaration} (read : ofText name text = .ok x) :
    x.name = Text.trimBlank name := by
  unfold ofText at read
  dsimp only at read
  split at read
  · cases read
  · split at read
    · cases read
    · split at read
      · cases read
      · cases read
        rfl

theorem safeOfText (name text : String) : Outcome.Safe (ofText name text) := by
  unfold ofText
  dsimp only
  split
  · exact nofun
  · split
    · exact nofun
    · split
      · exact nofun
      · exact trivial

end Declaration

namespace Dictionary
open SceneStream.Declaration

/-- Only declarations that came with a token were entered, under tokens that stood for nothing. -/
inductive Grows (d : Dictionary) : Dictionary → Prop where
  | refl : Grows d d
  | inline {e : Dictionary} {token : String} {x : Declaration} (before : Grows d e)
      (new : e.find? token = none) (read : ofToken? token = some x) : Grows d (e.insert token x)

theorem growsTrans {d e f : Dictionary} (first : d.Grows e) (next : e.Grows f) : d.Grows f := by
  induction next with
  | refl => exact first
  | inline _ new read ih => exact .inline ih new read

theorem growsColorSamples {d e : Dictionary} (grows : d.Grows e) :
    e.colorSamples = d.colorSamples := by
  induction grows with
  | refl => rfl
  | inline _ _ _ ih => exact ih

theorem growsDeclared {d e : Dictionary} (grows : d.Grows e) :
    ∃ new, e.declared = new ++ d.declared ∧ ∀ x ∈ new, x.isInline = true := by
  induction grows with
  | refl => exact ⟨[], rfl, nofun⟩
  | @inline e token x _ _ read ih =>
    obtain ⟨new, same, inline⟩ := ih
    refine ⟨x :: new, congrArg (x :: ·) same, fun y mem => ?_⟩
    rcases List.mem_cons.mp mem with rfl | older
    · simp only [ofToken?, bind, Option.bind_eq_some_iff] at read
      obtain ⟨w, -, name, -, last⟩ := read
      cases last
      rfl
    · exact inline y older

theorem growsFind {d e : Dictionary} (grows : d.Grows e) {token : String} {n : Nat}
    (found : d.find? token = some n) : e.find? token = some n := by
  induction grows with
  | refl => exact found
  | @inline e other x _ new _ ih =>
    have differs : (token == other) = false := by
      refine beq_false_of_ne fun same => ?_
      rw [same, new] at ih
      cases ih
    have skips : (e.insert other x).find? token = e.find? token := by
      simp only [find?, insert, List.lookup_cons, differs]
    exact skips.trans ih

theorem getEnd {d : Dictionary} {n : Nat} {x : Declaration} :
    d.get? n = some x ↔ n < d.size ∧ d.declared[d.size - 1 - n]? = some x := by
  unfold get?
  split
  · rename_i inside
    have place : d.size - 1 - n < d.declared.length := by
      simp only [size] at inside ⊢
      omega
    simp [get, inside, List.getElem?_eq_getElem place]
  · rename_i outside
    simp [outside]

theorem insertGet {d : Dictionary} {token : String} {y : Declaration} {n : Nat} {x : Declaration}
    (found : d.get? n = some x) : (d.insert token y).get? n = some x := by
  obtain ⟨inside, place⟩ := getEnd.mp found
  refine getEnd.mpr ⟨Nat.lt_succ_of_lt inside, ?_⟩
  have shifted : (d.insert token y).size - 1 - n = d.size - 1 - n + 1 := by
    simp only [size, insert, List.length_cons] at inside ⊢
    omega
  rw [shifted]
  exact place

theorem insertNewest (d : Dictionary) (token : String) (x : Declaration) :
    (d.insert token x).get? d.size = some x := by
  have first : (d.insert token x).size - 1 - d.size = 0 := by simp [size, insert]
  refine getEnd.mpr ⟨Nat.lt_succ_self _, ?_⟩
  rw [first]
  rfl

theorem growsGet {d e : Dictionary} (grows : d.Grows e) {n : Nat} {x : Declaration}
    (found : d.get? n = some x) : e.get? n = some x := by
  induction grows with
  | refl => exact found
  | inline _ _ _ ih => exact insertGet ih

def Stands (d : Dictionary) (x : Declaration) : Prop :=
  ∃ token n, d.find? token = some n ∧ d.get? n = some x

theorem standsDeclared {d : Dictionary} {x : Declaration} (stands : d.Stands x) :
    x ∈ d.declared := by
  obtain ⟨token, n, -, found⟩ := stands
  exact List.mem_of_getElem? (getEnd.mp found).2

theorem growsStands {d e : Dictionary} (grows : d.Grows e) {x : Declaration} (stands : d.Stands x) :
    e.Stands x := by
  obtain ⟨token, n, named, found⟩ := stands
  exact ⟨token, n, growsFind grows named, growsGet grows found⟩

theorem insertStands (d : Dictionary) (token : String) (x : Declaration) :
    (d.insert token x).Stands x :=
  ⟨token, d.size, by simp [find?, insert], insertNewest d token x⟩

theorem resolveOk {d e : Dictionary} {token : String} {n : Nat} {x : Declaration}
    (done : d.resolve token = .ok (e, n, x)) : d.Grows e ∧ e.Stands x := by
  unfold resolve at done
  split at done
  · rename_i found
    cases done
    exact ⟨.refl, token, n, found, dif_pos (findInside found)⟩
  · rename_i new
    split at done
    · rename_i read
      cases done
      exact ⟨.inline .refl new read, insertStands d token x⟩
    · cases done

theorem safeResolve (d : Dictionary) (token : String) : Outcome.Safe (d.resolve token) := by
  unfold resolve
  split
  · exact trivial
  · split
    · exact trivial
    · exact nofun

theorem safeDeclare (d : Dictionary) (name text : String) : Outcome.Safe (d.declare name text) :=
  Outcome.safeMap (safeOfText name text) _

theorem safeSetColorSamples (d : Dictionary) (n : Nat) : Outcome.Safe (d.setColorSamples n) := by
  unfold setColorSamples
  split
  · exact nofun
  · exact trivial

structure Positive (d : Dictionary) : Prop where
  samples : 0 < d.colorSamples
  sizes : ∀ x ∈ d.declared, 0 < x.size

theorem insertPositive {d : Dictionary} (positive : d.Positive) (token : String) {x : Declaration}
    (size : 0 < x.size) : (d.insert token x).Positive := by
  refine ⟨positive.samples, fun y mem => ?_⟩
  rcases List.mem_cons.mp mem with rfl | older
  · exact size
  · exact positive.sizes y older

theorem growsPositive {d e : Dictionary} (grows : d.Grows e) (positive : d.Positive) :
    e.Positive := by
  induction grows with
  | refl => exact positive
  | inline _ _ read ih => exact insertPositive ih _ (tokenPositive read)

theorem initialPositive : initial.Positive := by
  refine ⟨by decide, ?_⟩
  decide

theorem declarePositive {d e : Dictionary} {name text : String} {n : Nat} {replaced : Bool}
    (positive : d.Positive) (done : d.declare name text = .ok (e, n, replaced)) : e.Positive := by
  unfold declare at done
  cases read : ofText name text with
  | error p =>
    rw [read] at done
    cases done
  | ok x =>
    rw [read] at done
    cases done
    exact insertPositive positive _ (textPositive read)

theorem declareColorSamples {d e : Dictionary} {name text : String} {n : Nat} {replaced : Bool}
    (done : d.declare name text = .ok (e, n, replaced)) : e.colorSamples = d.colorSamples := by
  unfold declare at done
  cases read : ofText name text with
  | error p =>
    rw [read] at done
    cases done
  | ok x =>
    rw [read] at done
    cases done
    rfl

theorem setColorSamplesTo {d e : Dictionary} {n : Nat} (done : d.setColorSamples n = .ok e) :
    e.colorSamples = n := by
  unfold setColorSamples at done
  split at done
  · cases done
  · cases done
    rfl

theorem samplesPositive {d e : Dictionary} {n : Nat} (positive : d.Positive)
    (done : d.setColorSamples n = .ok e) : e.Positive := by
  unfold setColorSamples at done
  split at done
  · cases done
  · cases done
    exact ⟨by show 0 < n; omega, positive.sizes⟩

theorem widthPositive {d : Dictionary} (positive : d.Positive) {x : Declaration}
    (stands : d.Stands x) : 0 < d.width x := by
  have samples := positive.samples
  refine Nat.mul_pos ?_ (positive.sizes x (standsDeclared stands))
  cases x.kind <;> first | exact samples | exact Nat.zero_lt_succ _

end Dictionary
end SceneStream
