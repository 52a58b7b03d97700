import Mathlib.Data.Rat.Cast.Order
import Mathlib.Tactic.FieldSimp
import SceneStream.Proofs.Work
import SceneStream.Request.Args

/-! Integers out of stored numbers. A float has to be whole to be taken for one. Beyond the range of the integers the
reader of a single number refuses it, and the reader of an array takes the end of the range in its place. -/
namespace SceneStream

namespace Single
open Number

/-- The number that is meant; what is infinite or no number means none. -/
def number? (x : Single) : Option ℚ :=
  if x.isFinite then
    let size : ℚ := (Format.single.steps x.code : ℚ) / 2 ^ Format.single.scale
    some (if x.negative then -size else size)
  else none

theorem wholeQuotient (steps : ℕ) {unit : ℕ} (positive : 0 < unit) (n : ℤ) :
    ((steps : ℚ) / unit = n ↔ steps % unit = 0 ∧ ((steps / unit : ℕ) : ℤ) = n) := by
  have some : (unit : ℚ) ≠ 0 := Nat.cast_ne_zero.mpr positive.ne'
  have product : (steps : ℚ) / unit = n ↔ (steps : ℤ) = n * unit := by
    rw [div_eq_iff some]
    exact_mod_cast Iff.rfl
  rw [product]
  constructor
  · intro same
    have divides : (unit : ℤ) ∣ steps := ⟨n, by rw [same, Int.mul_comm]⟩
    refine ⟨Nat.mod_eq_zero_of_dvd (Int.natCast_dvd_natCast.mp divides), ?_⟩
    rw [Int.natCast_div, same]
    exact Int.mul_ediv_cancel _ (by omega)
  · rintro ⟨divides, rfl⟩
    exact_mod_cast (Nat.div_mul_cancel (Nat.dvd_of_mod_eq_zero divides)).symm

theorem integerNumber {x : Single} {n : ℤ} : x.integer? = some n ↔ x.number? = some (n : ℚ) := by
  have whole (m : ℤ) := wholeQuotient (Format.single.steps x.code) (Nat.two_pow_pos Format.single.scale) m
  simp only [Nat.cast_pow, Nat.cast_ofNat] at whole
  unfold integer? number?
  cases x.isFinite with
  | false => exact ⟨nofun, nofun⟩
  | true =>
    simp only [Bool.true_and, beq_iff_eq, if_true, Option.ite_none_right_eq_some, Option.some.injEq]
    cases x.negative with
    | false => exact (whole n).symm
    | true =>
      have turned := whole (-n)
      simp only [if_true, Int.cast_neg] at turned ⊢
      rw [neg_eq_iff_eq_neg, neg_eq_iff_eq_neg]
      exact turned.symm

end Single

namespace Values

def numbers : Values → List (Option ℚ)
  | integers l => l.map fun n => some n.toInt
  | floats l => l.map Single.number?
  | strings l => l.map fun _ => none

/-- A whole number, or the end of the range that it lies beyond. -/
def Clamped (q : Option ℚ) (n : Int32) : Prop :=
  ∃ k : ℤ, q = some (k : ℚ) ∧ n.toInt = max Int32.minValue.toInt (min k Int32.maxValue.toInt)

/-- Not a whole number beyond the range of the integers. -/
def Inside (q : Option ℚ) : Prop :=
  ∀ k : ℤ, q = some (k : ℚ) → Int32.minValue.toInt ≤ k ∧ k ≤ Int32.maxValue.toInt

theorem clampRange (k : ℤ) : (clamp k).toInt = max Int32.minValue.toInt (min k Int32.maxValue.toInt) := by
  have low : Int32.minValue.toInt = -2 ^ 31 := by decide
  have high : Int32.maxValue.toInt = 2 ^ 31 - 1 := by decide
  unfold clamp
  split
  · omega
  · split
    · omega
    · rw [Int32.toInt_ofInt_of_le (by omega) (by omega)]
      omega

theorem integerClamped (n m : Int32) : Clamped (some n.toInt) m ↔ n = m := by
  have low := Int32.minValue_le_toInt n
  have high := Int32.toInt_le n
  constructor
  · rintro ⟨k, same, within⟩
    obtain rfl : n.toInt = k := by exact_mod_cast Option.some.inj same
    exact Int32.toInt_inj.mp (by omega)
  · rintro rfl
    exact ⟨n.toInt, rfl, by omega⟩

theorem floatClamped (x : Single) (n : Int32) : Clamped x.number? n ↔ x.integer?.map clamp = some n := by
  rw [Option.map_eq_some_iff]
  constructor
  · rintro ⟨k, number, within⟩
    exact ⟨k, Single.integerNumber.mpr number, Int32.toInt_inj.mp ((clampRange k).trans within.symm)⟩
  · rintro ⟨k, integer, rfl⟩
    exact ⟨k, Single.integerNumber.mp integer, clampRange k⟩

theorem clampedInside {q : Option ℚ} (inside : Inside q) (n : Int32) : Clamped q n ↔ q = some (n.toInt : ℚ) := by
  constructor
  · rintro ⟨k, rfl, within⟩
    have range := inside k rfl
    rw [show n.toInt = k by omega]
  · rintro rfl
    exact (integerClamped n n).mpr rfl

theorem mapMForall {α β : Type} {f : α → Option β} {l : List α} {r : List β} :
    l.mapM f = some r ↔ List.Forall₂ (fun a b => f a = some b) l r := by
  induction l generalizing r with
  | nil => simp [eq_comm]
  | cons a l ih =>
    simp only [List.mapM_cons, bind, Option.bind_eq_some_iff, pure, ih, List.forall₂_cons_left_iff]
    grind

theorem integersClamped (v : Values) (ns : List Int32) :
    v.integers? = some ns ↔ List.Forall₂ Clamped v.numbers ns := by
  cases v with
  | integers l =>
    simp only [integers?, numbers, List.forall₂_map_left_iff, integerClamped, List.forall₂_eq_eq_eq, Option.some.injEq]
  | floats l =>
    simp only [integers?, numbers, List.forall₂_map_left_iff, floatClamped, mapMForall]
  | strings l =>
    cases l with
    | nil => simp [integers?, numbers, eq_comm]
    | cons s l =>
      constructor
      · intro read
        cases read
      · intro all
        obtain ⟨n, rest, ⟨k, number, -⟩, -⟩ := List.forall₂_cons_left_iff.mp all
        cases number

theorem integersExact {v : Values} (inside : ∀ q ∈ v.numbers, Inside q) (ns : List Int32) :
    v.integers? = some ns ↔ v.numbers = ns.map fun n => some (n.toInt : ℚ) := by
  rw [integersClamped]
  generalize v.numbers = qs at inside
  induction qs generalizing ns with
  | nil => cases ns <;> simp
  | cons q qs ih =>
    obtain ⟨first, rest⟩ := List.forall_mem_cons.mp inside
    cases ns with
    | nil => simp
    | cons n ns => rw [List.forall₂_cons, List.map_cons, List.cons.injEq, ih ns rest, clampedInside first]

end Values

namespace Args
open Values (Clamped Inside)

inductive Numeral : Parameter → Prop where
  | integer (n : Int32) (isArray : Bool) (source : BasicType) : Numeral ⟨.integers [n], isArray, source⟩
  | float (x : Single) (isArray : Bool) (source : BasicType) : Numeral ⟨.floats [x], isArray, source⟩

section Numeral
variable {p : Parameter} {kind : RequestKind} {rest : List Parameter} {q : Option ℚ} {b : Args}

theorem numeralNumbers (lone : Numeral p) : ∃ q, p.values.numbers = [q] := by
  cases lone <;> exact ⟨_, rfl⟩

theorem fitsInside {k : ℤ} : fits k = true ↔ Int32.minValue.toInt ≤ k ∧ k ≤ Int32.maxValue.toInt := by
  simp only [fits, Bool.and_eq_true, decide_eq_true_eq]

theorem fitsExact {k : ℤ} (inside : fits k = true) (n : Int32) : Int32.ofInt k = n ↔ k = n.toInt := by
  obtain ⟨low, high⟩ := fitsInside.mp inside
  have own : (Int32.ofInt k).toInt = k := Int32.toInt_ofInt_of_le low (Int.lt_add_one_of_le high)
  rw [← Int32.toInt_inj, own]

theorem intFloat (x : Single) (isArray : Bool) (source : BasicType) (kind : RequestKind) (rest : List Parameter) :
    let a : Args := ⟨kind, ⟨.floats [x], isArray, source⟩ :: rest, 0⟩
    int.run a = match x.integer?.filter fits with
      | some k => (.ok (Int32.ofInt k), ⟨kind, rest, 0⟩)
      | none => (.error (.of .consistency s!"{kind.name}: expected integer argument, found {x.text}"), a) := by
  intro a
  simp only [int, Work.runBind, Work.runGet, peek, a, List.head?, List.getElem?_cons_zero]
  cases x.integer? with
  | none => rfl
  | some k =>
    simp only [Option.filter_some]
    cases fits k <;> rfl

theorem intReads (lone : Numeral p) (only : p.values.numbers = [q]) (n : Int32) :
    int.run ⟨kind, p :: rest, 0⟩ = (.ok n, b) ↔ q = some (n.toInt : ℚ) ∧ b = ⟨kind, rest, 0⟩ := by
  cases lone with
  | integer m isArray source =>
    have run : int.run ⟨kind, ⟨.integers [m], isArray, source⟩ :: rest, 0⟩ = (.ok m, ⟨kind, rest, 0⟩) := rfl
    obtain rfl : some (m.toInt : ℚ) = q := (List.cons.inj only).1
    rw [run, Prod.mk.injEq, Except.ok.injEq, Option.some.injEq, Int.cast_inj, Int32.toInt_inj, @eq_comm _ b]
  | float x isArray source =>
    obtain rfl : x.number? = q := (List.cons.inj only).1
    rw [intFloat, ← Single.integerNumber]
    cases x.integer? with
    | none => exact ⟨nofun, nofun⟩
    | some k =>
      rw [Option.filter_some, Option.some.injEq]
      cases inside : fits k with
      | true =>
        show (Except.ok (Int32.ofInt k), (⟨kind, rest, 0⟩ : Args)) = (.ok n, b) ↔ _
        rw [Prod.mk.injEq, Except.ok.injEq, fitsExact inside, @eq_comm _ b]
      | false =>
        refine ⟨nofun, fun ⟨same, _⟩ => ?_⟩
        have range : fits n.toInt = true := fitsInside.mpr ⟨Int32.minValue_le_toInt n, Int32.toInt_le n⟩
        rw [← same, inside] at range
        cases range

theorem intArrayReads (only : p.values.numbers = [q]) (ns : List Int32) :
    intArray.run ⟨kind, p :: rest, 0⟩ = (.ok ns, b) ↔ (∃ n, ns = [n] ∧ Clamped q n) ∧ b = ⟨kind, rest, 0⟩ := by
  have read : p.values.integers? = some ns ↔ ∃ n, ns = [n] ∧ Clamped q n := by
    rw [Values.integersClamped, only, List.forall₂_cons_left_iff]
    simp only [List.forall₂_nil_left_iff]
    constructor
    · rintro ⟨n, _, clamped, rfl, same⟩
      exact ⟨n, same, clamped⟩
    · rintro ⟨n, same, clamped⟩
      exact ⟨n, [], clamped, rfl, same⟩
  rw [← read]
  simp only [intArray, whole, Work.runBind, Work.runGet, peek, List.head?]
  cases p.values.integers? with
  | none => exact ⟨nofun, nofun⟩
  | some ms =>
    show (Except.ok ms, (⟨kind, rest, 0⟩ : Args)) = (.ok ns, b) ↔ _
    rw [Prod.mk.injEq, Except.ok.injEq, Option.some.injEq, @eq_comm _ b]

end Numeral

/-- Integers are the numbers they are read from, but an array gives the end of the range for a whole number beyond it,
which the reader of one number refuses. Where no number is such a one, both read the same. -/
theorem integersReadClamped (v : Values) {p : Parameter} (lone : Numeral p) (kind : RequestKind)
    (rest : List Parameter) :
    (∀ ns, v.integers? = some ns ↔ List.Forall₂ Clamped v.numbers ns) ∧
    ((∀ q ∈ v.numbers, Inside q) →
      ∀ ns, v.integers? = some ns ↔ v.numbers = ns.map fun n => some (n.toInt : ℚ)) ∧
    let a : Args := ⟨kind, p :: rest, 0⟩
    ∃ q, p.values.numbers = [q] ∧
      (∀ n b, int.run a = (.ok n, b) ↔ q = some (n.toInt : ℚ) ∧ b = ⟨kind, rest, 0⟩) ∧
      (∀ ns b, intArray.run a = (.ok ns, b) ↔ (∃ n, ns = [n] ∧ Clamped q n) ∧ b = ⟨kind, rest, 0⟩) ∧
      (Inside q → ∀ n b, int.run a = (.ok n, b) ↔ intArray.run a = (.ok [n], b)) := by
  obtain ⟨q, only⟩ := numeralNumbers lone
  refine ⟨Values.integersClamped v, Values.integersExact, q, only, fun n b => intReads lone only n,
    fun ns b => intArrayReads only ns, fun inside n b => ?_⟩
  rw [intReads lone only, intArrayReads only, ← Values.clampedInside inside]
  simp only [List.cons.injEq, and_true, exists_eq_left']

theorem eightReadAlike :
    let a : Args := ⟨.sides, [.of (.floats [.ofInt 8]) false], 0⟩
    (Values.floats [.ofInt 8]).integers? = some [8] ∧
    int.run a = (.ok 8, ⟨.sides, [], 0⟩) ∧ intArray.run a = (.ok [8], ⟨.sides, [], 0⟩) := by
  obtain ⟨-, whole, q, only, single, -, alike⟩ :=
    integersReadClamped (.floats [.ofInt 8]) (.float (.ofInt 8) false .float) .sides []
  have number : some ((8 : Int32).toInt : ℚ) = q := by
    rw [← (List.cons.inj only).1]
    decide +kernel
  have inside : Inside q := by
    intro k same
    obtain rfl : (8 : Int32).toInt = k := by exact_mod_cast Option.some.inj (number.trans same)
    decide
  have taken := (single 8 _).mpr ⟨number.symm, rfl⟩
  refine ⟨(whole (only ▸ List.forall_mem_singleton.mpr inside) [8]).mpr ?_, taken, (alike inside 8 _).mp taken⟩
  exact only.trans (congrArg (fun q => [q]) number.symm)

/-- Three thousand million. -/
def large : Single := ⟨0x4f32d05e⟩

theorem largeClamped :
    large.number? = some 3000000000 ∧ (Values.floats [large]).integers? = some [2147483647] ∧
    read ⟨.sides, 1, [.of (.floats [large]) false]⟩ intArray = .ok [2147483647] ∧
    (read ⟨.sides, 1, [.of (.floats [large]) false]⟩ int).toOption = none := by
  refine ⟨?_, by decide +kernel, by decide +kernel, by decide +kernel⟩
  decide +kernel

end Args
end SceneStream
