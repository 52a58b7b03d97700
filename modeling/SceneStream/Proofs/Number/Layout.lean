import SceneStream.Proofs.Number.Numeral
import SceneStream.Proofs.Number.Shortest

/-! The text of a single in a stream. Wherever the point is put, the text is a numeral, never one of an
integer, and it is read back as the same single. -/
namespace SceneStream.Number

def Numeral.Fractional (m : Numeral) : Prop := m.places.isSome ∨ m.power.isSome

def Tells (negative : Bool) (n : Nat) (e : Int) (text : List Char) : Prop :=
  ∃ (m : Numeral) (k : Nat), text = m.text ∧ m.Fractional ∧ k ≤ e.toNat + 1 ∧
    m.decimal = ⟨negative, n * 10 ^ k, e - k⟩

namespace Layout

theorem zerosText (n : Nat) : (zeros n).toList = List.replicate n '0' := by
  simp [zeros]

theorem wholeTells (negative : Bool) (n : Nat) {e : Int} (whole : 0 ≤ e) :
    Tells negative n e (signText negative ++ (stream.plain (Nat.toDigits 10 n) e).toList) := by
  refine ⟨⟨negative, .raised n e.toNat, some (.ofNat 0), none⟩, e.toNat + 1, ?_, .inl rfl,
    Nat.le_refl _, ?_⟩
  · unfold plain
    simp [whole, Numeral.text, Numeral.placeText, Numeral.powerText, zerosText, stream,
      Digits.ofNat, Digits.raised]
  · have digits : digitsValue (Nat.toDigits 10 n ++ List.replicate (e.toNat + 1) '0') =
        n * 10 ^ (e.toNat + 1) := by rw [digitsValueShift, digitsValueNat]
    have exponent : (0 : Int) - 1 = e - (e.toNat + 1 : Nat) := by omega
    simpa [Numeral.decimal, Numeral.placeDigits, Numeral.exponent, Digits.ofNat, Digits.raised,
      List.replicate_succ'] using And.intro digits exponent

theorem smallTells (negative : Bool) (n : Nat) {e : Int} (fraction : e < 0)
    (small : ((Nat.toDigits 10 n).length : Int) + e ≤ 0) :
    Tells negative n e (signText negative ++ (stream.plain (Nat.toDigits 10 n) e).toList) := by
  have below : ¬ 0 ≤ e := Int.not_le.mpr fraction
  refine ⟨⟨negative, .ofNat 0, some (.lowered (-((Nat.toDigits 10 n).length + e)).toNat n), none⟩, 0,
    ?_, .inl rfl, Nat.zero_le _, ?_⟩
  · unfold plain
    simp [below, small, Numeral.text, Numeral.placeText, Numeral.powerText, zerosText,
      Digits.ofNat, Digits.lowered]
  · have digits : digitsValue ('0' :: (List.replicate (-((Nat.toDigits 10 n).length + e)).toNat '0' ++
        Nat.toDigits 10 n)) = n := by
      have zeros := digitsValueZeros ((-((Nat.toDigits 10 n).length + e)).toNat + 1) (Nat.toDigits 10 n)
      rwa [List.replicate_succ, List.cons_append, digitsValueNat] at zeros
    have exponent : (0 : Int) - ((-((Nat.toDigits 10 n).length + e)).toNat +
        (Nat.toDigits 10 n).length : Nat) = e := by omega
    simpa [Numeral.decimal, Numeral.placeDigits, Numeral.exponent, Digits.ofNat, Digits.lowered]
      using And.intro digits exponent

theorem middleTells (negative : Bool) (n : Nat) {e : Int} (fraction : e < 0)
    (large : 0 < ((Nat.toDigits 10 n).length : Int) + e) :
    Tells negative n e (signText negative ++ (stream.plain (Nat.toDigits 10 n) e).toList) := by
  have below : ¬ 0 ≤ e := Int.not_le.mpr fraction
  obtain ⟨point, same⟩ : ∃ point : Nat, ((Nat.toDigits 10 n).length : Int) + e = point :=
    ⟨_, (Int.toNat_of_nonneg (Int.le_of_lt large)).symm⟩
  have above : point ≠ 0 := by omega
  have before : (Nat.toDigits 10 n).take point ≠ [] := by
    intro none
    have := List.take_eq_nil_iff.mp none
    simp at this
    omega
  have behind : (Nat.toDigits 10 n).drop point ≠ [] := by
    intro none
    have := List.drop_eq_nil_iff.mp none
    omega
  refine ⟨⟨negative, .part n before (List.take_subset ..), some (.part n behind (List.drop_subset ..)),
    none⟩, 0, ?_, .inl rfl, Nat.zero_le _, ?_⟩
  · unfold plain
    simp [below, above, same, Numeral.text, Numeral.placeText, Numeral.powerText, Digits.part]
  · have exponent : (0 : Int) - ((Nat.toDigits 10 n).length - point : Nat) = e := by omega
    simpa [Numeral.decimal, Numeral.placeDigits, Numeral.exponent, Digits.part, digitsValueNat]
      using exponent

theorem plainTells (negative : Bool) (n : Nat) (e : Int) :
    Tells negative n e (signText negative ++ (stream.plain (Nat.toDigits 10 n) e).toList) := by
  by_cases whole : 0 ≤ e
  · exact wholeTells negative n whole
  · by_cases small : ((Nat.toDigits 10 n).length : Int) + e ≤ 0
    · exact smallTells negative n (Int.not_le.mp whole) small
    · exact middleTells negative n (Int.not_le.mp whole) (Int.not_le.mp small)

def written (p : Int) : Bool × Digits := (p < 0, .ofNat p.natAbs)

theorem writtenText (negative : Bool) (whole : Digits) (places : Option Digits) (p : Int) :
    (Numeral.mk negative whole places (some (written p))).powerText = 'e' :: (toString p).toList := by
  rw [intText]
  rfl

theorem writtenExponent (negative : Bool) (whole : Digits) (places : Option Digits) {p : Int}
    (bounded : p.natAbs < exponentLimit) :
    (Numeral.mk negative whole places (some (written p))).exponent = p := by
  have digits := digitsValueNat p.natAbs
  have value : exponentValue (Digits.ofNat p.natAbs).chars = p.natAbs :=
    (exponentValueSmall (by simpa [Digits.ofNat, digits] using bounded)).trans digits
  simp only [Numeral.exponent, written, value, decide_eq_true_eq]
  split <;> omega

theorem scientificTells (negative : Bool) (n : Nat) {e : Int}
    (bounded : (((Nat.toDigits 10 n).length : Int) + e - 1).natAbs < exponentLimit) :
    Tells negative n e (signText negative ++ (scientific (Nat.toDigits 10 n) e).toList) := by
  have value := digitsValueNat n
  cases same : Nat.toDigits 10 n with
  | nil => exact absurd same Nat.toDigits_ne_nil
  | cons d ds =>
    rw [same] at bounded value
    have first : [d] ⊆ Nat.toDigits 10 n := by simp [same]
    cases ds with
    | nil =>
      have exponent := writtenExponent negative (.part n (List.cons_ne_nil d []) first) none bounded
      refine ⟨⟨negative, .part n (List.cons_ne_nil d []) first, none,
        some (written (([d].length : Int) + e - 1))⟩, 0, ?_, .inr rfl, Nat.zero_le _, ?_⟩
      · simp [scientific, Numeral.text, Numeral.placeText, writtenText, Digits.part]
      · have shift : (1 : Int) + e - 1 = e := by omega
        unfold Numeral.decimal
        rw [exponent]
        simpa [Numeral.placeDigits, Digits.part] using And.intro value shift
    | cons d' ds =>
      have others : d' :: ds ⊆ Nat.toDigits 10 n := by simp [same]
      have exponent := writtenExponent negative (.part n (List.cons_ne_nil d []) first)
        (some (.part n (List.cons_ne_nil d' ds) others)) bounded
      refine ⟨⟨negative, .part n (List.cons_ne_nil d []) first,
        some (.part n (List.cons_ne_nil d' ds) others),
        some (written (((d :: d' :: ds).length : Int) + e - 1))⟩, 0, ?_, .inl rfl, Nat.zero_le _, ?_⟩
      · simp [scientific, Numeral.text, Numeral.placeText, writtenText, Digits.part]
      · have shift : (((d :: d' :: ds).length : Int) + e - 1) - (d' :: ds).length = e := by
          simp only [List.length_cons]
          omega
        unfold Numeral.decimal
        rw [exponent]
        simpa [Numeral.placeDigits, Digits.part] using And.intro value shift

end Layout

/-! Singles. -/

theorem magnitudeNear (f : Format) {d : Decimal} (some : d.digits ≠ 0)
    (low : -Decimal.farPower ≤ d.exponent) (high : d.exponent ≤ Decimal.farPower) :
    d.magnitude f = f.ofDecimal d.digits d.exponent := by
  have above : ¬ d.exponent + (d.digits.log2 + 1 : Nat) / 3 + 1 < -Decimal.farPower := by omega
  unfold Decimal.magnitude
  simp only [some, above, Int.not_lt.mpr high, decide_false, Bool.or_self, Bool.false_eq_true,
    if_false]

theorem tellsReads {f : Format} {negative : Bool} {n : Nat} {e : Int} {text : List Char}
    (tells : Tells negative n e text) (some : n ≠ 0) (low : -399 ≤ e) (high : e ≤ 400) :
    ∃ m : Numeral, text = m.text ∧ m.Fractional ∧ m.decimal.negative = negative ∧
      m.decimal.magnitude f = f.ofDecimal n e := by
  obtain ⟨m, k, same, fractional, zeros, decimal⟩ := tells
  refine ⟨m, same, fractional, by rw [decimal], ?_⟩
  have digits : n * 10 ^ k ≠ 0 := Nat.mul_ne_zero some (Nat.ne_of_gt (Nat.pow_pos (by decide)))
  rw [decimal, magnitudeNear f digits (by simp only [Decimal.farPower]; omega)
    (by simp only [Decimal.farPower]; omega)]
  exact Format.ofDecimalShift f n k e

theorem singleLog {code : Nat} (finite : code < Format.single.infinity) :
    (Format.single.steps code).log2 < 277 := by
  have infinity : Format.single.infinity = 255 * 2 ^ 23 := rfl
  by_cases small : code < 2 ^ 23
  · rw [Format.stepsSmall _ small]
    by_cases zero : code = 0
    · simp [zero]
    · have := (Nat.log2_lt zero).mpr small
      omega
  · have log := Format.log2Normal (code / 2 ^ 23 - 1) rfl
      (Nat.mod_lt code (Nat.two_pow_pos 23))
    have steps := Format.stepsLarge Format.single (Nat.le_of_not_lt small)
    have exponent : code / 2 ^ 23 - 1 ≤ 253 := by omega
    rw [steps]
    calc _ = 23 + (code / 2 ^ 23 - 1) := log
      _ < 277 := by omega

theorem stepsPositive (f : Format) {code : Nat} (some : code ≠ 0) : f.steps code ≠ 0 := by
  by_cases small : code < 2 ^ (f.precision - 1)
  · rwa [Format.stepsSmall f small]
  · rw [Format.stepsLarge f (Nat.le_of_not_lt small)]
    have half := Nat.two_pow_pos (f.precision - 1)
    exact Nat.mul_ne_zero (by omega) (Nat.ne_of_gt (Nat.two_pow_pos _))

theorem singleDigits {code : Nat} (some : code ≠ 0) (finite : code < Format.single.infinity) :
    Shortest.Stands .single code (Shortest.digits .single code).1 (Shortest.digits .single code).2 ∧
      -149 ≤ (Shortest.digits .single code).2 ∧ (Shortest.digits .single code).2 ≤ 41 := by
  have positive := stepsPositive .single some
  obtain ⟨stands, low, high⟩ := Shortest.digitsStand .single (by decide) (by decide) positive finite
  refine ⟨stands, low, ?_⟩
  have log := singleLog finite
  have scale : Format.single.scale = 149 := rfl
  unfold Shortest.topExponent at high
  omega

theorem tenBound (k m : Nat) : 2 ^ k * 10 ^ m + 1 < 10 ^ (k + m + 1) := by
  have power : 2 ^ k ≤ 10 ^ k := Nat.pow_le_pow_left (by decide) k
  have product : 2 ^ k * 10 ^ m ≤ 10 ^ (k + m) := by
    rw [Nat.pow_add]
    exact Nat.mul_le_mul_right _ power
  have positive : 0 < 10 ^ (k + m) := Nat.pow_pos (by decide)
  rw [Nat.pow_succ]
  omega

theorem singleLength {code : Nat} (some : code ≠ 0) (finite : code < Format.single.infinity) :
    (Nat.toDigits 10 (Shortest.digits .single code).1).length ≤ 277 + 149 + 1 := by
  obtain ⟨stands, low, -⟩ := singleDigits some finite
  have steps := Nat.lt_log2_self (n := Format.single.steps code)
  have log := singleLog finite
  generalize (Format.single.steps code).log2 = k at steps log
  have power : 10 ^ (-(Shortest.digits .single code).2).toNat ≤ 10 ^ 149 :=
    Nat.pow_le_pow_right (by decide) (by omega)
  have below : (Shortest.digits .single code).1 < 10 ^ (k + 1 + 149 + 1) :=
    calc (Shortest.digits .single code).1
        ≤ Format.single.steps code * 10 ^ (-(Shortest.digits .single code).2).toNat + 1 := stands.bound
      _ ≤ 2 ^ (k + 1) * 10 ^ 149 + 1 :=
          Nat.succ_le_succ (Nat.mul_le_mul (Nat.le_of_lt steps) power)
      _ < 10 ^ (k + 1 + 149 + 1) := tenBound (k + 1) 149
  have length := (Nat.length_toDigits_le_iff (by decide) (by omega)).mpr below
  omega

theorem finiteTells (negative : Bool) {code : Nat} (some : code ≠ 0)
    (finite : code < Format.single.infinity) :
    Tells negative (Shortest.digits .single code).1 (Shortest.digits .single code).2
      (signText negative ++ (Layout.stream.finite .single code).toList) := by
  obtain ⟨-, low, high⟩ := singleDigits some finite
  have length := singleLength some finite
  unfold Layout.finite
  rw [if_neg some]
  simp only [Layout.stream]
  split
  · exact Layout.plainTells negative _ _
  · refine Layout.scientificTells negative _ ?_
    have limit : exponentLimit = 65536 := rfl
    omega

end SceneStream.Number

namespace SceneStream.Single
open Number

theorem ofCodeCode (x : Single) : ofCode x.negative x.code = x := by
  have low : x.code = x.bits.toNat % 2 ^ 31 := by
    unfold code
    rw [UInt32.toNat_and]
    exact Nat.and_two_pow_sub_one_eq_mod _ 31
  have size := x.bits.toNat_lt
  have bound : x.code < 2 ^ 31 := low ▸ Nat.mod_lt _ (Nat.two_pow_pos 31)
  have same : (UInt32.ofNat x.code).toNat = x.code := by
    rw [UInt32.toNat_ofNat']
    exact Nat.mod_eq_of_lt (by omega)
  have bits : (ofCode x.negative x.code).bits = x.bits := by
    apply UInt32.toNat_inj.mp
    unfold ofCode
    rw [UInt32.toNat_or, same]
    by_cases sign : 0x80000000 ≤ x.bits
    · have negative : x.negative = true := decide_eq_true sign
      have high : 2 ^ 31 ≤ x.bits.toNat := UInt32.le_iff_toNat_le.mp sign
      have joined := Nat.two_pow_add_eq_or_of_lt bound 1
      rw [negative, if_pos rfl]
      show 2 ^ 31 * 1 ||| x.code = x.bits.toNat
      rw [← joined]
      omega
    · have positive : x.negative = false := decide_eq_false sign
      have high : x.bits.toNat < 2 ^ 31 := Nat.lt_of_not_le fun h => sign (UInt32.le_iff_toNat_le.mpr h)
      rw [positive, if_neg Bool.false_ne_true]
      show 0 ||| x.code = x.bits.toNat
      rw [Nat.zero_or]
      omega
  cases x
  exact congrArg Single.mk bits

theorem streamTextReads {x : Single} (finite : x.isFinite = true) :
    ∃ m : Numeral, x.streamText.toList = m.text ∧ m.Fractional ∧ m.decimal.toSingle = x := by
  have below : x.code < Format.single.infinity := by simpa [isFinite] using finite
  have text : x.streamText.toList =
      signText x.negative ++ (Layout.stream.finite .single x.code).toList := by
    unfold streamText Layout.write
    rw [if_neg (Nat.lt_asymm below), if_neg (Nat.ne_of_lt below)]
    cases x.negative <;> simp [signText]
  rw [text]
  by_cases zero : x.code = 0
  · refine ⟨⟨x.negative, .ofNat 0, some (.ofNat 0), none⟩, ?_, .inl rfl, ?_⟩
    · rw [zero]
      simp [Layout.finite, Layout.stream, Numeral.text, Numeral.placeText, Numeral.powerText, Digits.ofNat]
    · have nothing : ofCode x.negative 0 = x := zero ▸ ofCodeCode x
      exact nothing
  · obtain ⟨stands, low, high⟩ := singleDigits zero below
    obtain ⟨m, same, fractional, sign, magnitude⟩ := tellsReads (f := .single)
      (finiteTells x.negative zero below) stands.some (by omega) (by omega)
    refine ⟨m, same, fractional, ?_⟩
    unfold Decimal.toSingle
    rw [sign, magnitude, stands.reads, ofCodeCode]

end SceneStream.Single
