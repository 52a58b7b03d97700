import SceneStream.Number.Shortest
import SceneStream.Proofs.Number.Format

/-! The search for the fewest digits. What it finds reads back, and it finds something: at the latest
where the last place is the format's own least step. -/
namespace SceneStream.Number.Shortest

structure Stands (f : Format) (code : Nat) (n : Nat) (exponent : Int) : Prop where
  some : n ≠ 0
  reads : f.ofDecimal n exponent = code
  bound : n ≤ f.steps code * 10 ^ (-exponent).toNat + 1

theorem digitsAtDivides (f : Format) (code : Nat) (exponent : Int) :
    ∃ num den, num ≤ f.steps code * 10 ^ (-exponent).toNat ∧ digitsAt f code exponent =
      match (num / den != 0 && f.ofDecimal (num / den) exponent == code),
          (num / den + 1 != 0 && f.ofDecimal (num / den + 1) exponent == code) with
        | true, true => some (if 2 * (num % den) < den then num / den else num / den + 1)
        | true, false => some (num / den)
        | false, true => some (num / den + 1)
        | false, false => none := by
  cases exponent with
  | ofNat e => exact ⟨_, _, by simp, rfl⟩
  | negSucc e => exact ⟨_, _, Nat.le_refl _, rfl⟩

theorem digitsAtStands {f : Format} {code n : Nat} {exponent : Int}
    (found : digitsAt f code exponent = some n) : Stands f code n exponent := by
  obtain ⟨num, den, small, tried⟩ := digitsAtDivides f code exponent
  rw [tried] at found
  have low := Nat.le_trans (Nat.div_le_self num den) small
  have here : ∀ m, (m != 0 && f.ofDecimal m exponent == code) = true →
      m ≤ num / den + 1 → Stands f code m exponent := by
    intro m read near
    simp only [Bool.and_eq_true, bne_iff_ne, beq_iff_eq] at read
    exact ⟨read.1, read.2, by omega⟩
  split at found
  · rename_i first second
    cases Option.some.inj found
    split
    · exact here _ first (by omega)
    · exact here _ second (Nat.le_refl _)
  · rename_i first _
    cases Option.some.inj found
    exact here _ first (by omega)
  · rename_i _ second
    cases Option.some.inj found
    exact here _ second (Nat.le_refl _)
  · contradiction

theorem tenSplit (scale : Nat) : 10 ^ scale = 5 ^ scale * 2 ^ scale := by
  rw [← Nat.mul_pow]

theorem digitsAtLeast (f : Format) (implicit : 0 < f.precision) {scale code : Nat}
    (fine : f.scale = scale + 1) (positive : f.steps code ≠ 0) (finite : code < f.infinity) :
    (digitsAt f code (.negSucc scale)).isSome := by
  have split : f.steps code * 10 ^ (scale + 1) = f.steps code * 5 ^ (scale + 1) * 2 ^ (scale + 1) := by
    rw [tenSplit, Nat.mul_assoc]
  have low : f.steps code * 10 ^ (scale + 1) / (1 <<< f.scale) = f.steps code * 5 ^ (scale + 1) := by
    rw [fine, Nat.one_shiftLeft, split, Nat.mul_div_cancel _ (Nat.two_pow_pos _)]
  have some : f.steps code * 5 ^ (scale + 1) ≠ 0 :=
    Nat.mul_ne_zero positive (Nat.ne_of_gt (Nat.pow_pos (by decide)))
  have reads : f.ofDecimal (f.steps code * 5 ^ (scale + 1)) (.negSucc scale) = code := by
    simp only [Format.ofDecimal, Nat.shiftLeft_eq]
    rw [fine, ← split]
    exact Format.roundExact f implicit finite (Nat.pow_pos (by decide))
  unfold digitsAt
  simp only [low, reads, beq_self_eq_true, bne_iff_ne.mpr some, Bool.and_self]
  split
  · rfl
  · rfl
  · contradiction
  · contradiction

theorem searchFinds {f : Format} {code : Nat} (fuel : Nat) {top : Int} {i : Nat} (within : i < fuel)
    (there : (digitsAt f code (top - i)).isSome) :
    ∃ n e, search f code fuel top = some (n, e) ∧ digitsAt f code e = some n ∧
      top - i ≤ e ∧ e ≤ top := by
  induction fuel generalizing top i with
  | zero => omega
  | succ fuel ih =>
    unfold search
    cases here : digitsAt f code top with
    | some n => exact ⟨n, top, rfl, here, by omega, Int.le_refl top⟩
    | none =>
      cases i with
      | zero => simp [here] at there
      | succ i =>
        have next : top - (i + 1 : Nat) = top - 1 - i := by omega
        rw [next] at there
        obtain ⟨n, e, found, at_, low, high⟩ := ih (by omega) there
        exact ⟨n, e, found, at_, by omega, by omega⟩

theorem digitsStand (f : Format) (implicit : 0 < f.precision) (fine : 0 < f.scale) {code : Nat}
    (positive : f.steps code ≠ 0) (finite : code < f.infinity) :
    Stands f code (digits f code).1 (digits f code).2 ∧
      -f.scale ≤ (digits f code).2 ∧ (digits f code).2 ≤ topExponent f code := by
  obtain ⟨scale, same⟩ : ∃ scale, f.scale = scale + 1 := ⟨f.scale - 1, by omega⟩
  have least := digitsAtLeast f implicit same positive finite
  have top : -f.scale ≤ topExponent f code := by
    unfold topExponent
    omega
  have place : topExponent f code - (topExponent f code + f.scale).toNat = .negSucc scale := by
    omega
  rw [← place] at least
  obtain ⟨n, e, found, there, low, high⟩ :=
    searchFinds (topExponent f code + f.scale + 1).toNat (by omega) least
  unfold digits
  dsimp only
  rw [found]
  exact ⟨digitsAtStands there, by simp only [Option.getD_some]; omega, high⟩

end SceneStream.Number.Shortest
