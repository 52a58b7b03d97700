import SceneStream.Proofs.Stream.Packed

/-! Binary elements in machine words. What could go wrong with one is looked at each time: a subtraction that
goes below zero, a shift by as many bits as the word has, an index behind the end. None of them ever does. -/
namespace SceneStream.Stream

theorem bigEndianFold (n : Nat) (bytes : Bytes) :
    bytes.foldl (fun n b => n * 256 + b.toNat) n < (n + 1) * 256 ^ bytes.length := by
  induction bytes generalizing n with
  | nil => simp
  | cons b bytes ih =>
    have byte := b.toNat_lt
    calc bytes.foldl (fun n b => n * 256 + b.toNat) (n * 256 + b.toNat)
        < (n * 256 + b.toNat + 1) * 256 ^ bytes.length := ih _
      _ ≤ (n + 1) * 256 * 256 ^ bytes.length := Nat.mul_le_mul_right _ (by omega)
      _ = (n + 1) * 256 ^ (b :: bytes).length := by
        rw [List.length_cons, Nat.pow_succ, Nat.mul_assoc, Nat.mul_comm 256]

theorem bigEndianBound (bytes : Bytes) : bigEndian bytes < 256 ^ bytes.length := by
  have bound := bigEndianFold 0 bytes
  rwa [Nat.zero_add, Nat.one_mul] at bound

theorem payloadSize {n : Nat} {c after : Cursor} {bytes : Bytes}
    (found : c.payload n = (some bytes, after)) : bytes.length = n := by
  unfold Cursor.payload at found
  split at found
  · rename_i taken rest whole
    obtain ⟨new, same, -, size⟩ := Cursor.takeExactlySound n [] c.rest taken rest whole
    cases found
    exact (congrArg List.length same).trans size
  · cases found

namespace Guarded

def minus? (a b : Nat) : Option Nat := if b ≤ a then some (a - b) else none

/-- A shift of a word of so many bits. -/
def shift? (bits n : Nat) : Option Nat := if n < bits then some n else none

def word (bytes : Bytes) : UInt64 := bytes.foldl (fun acc b => acc <<< 8 ||| b.toUInt64) 0

def signExtend? (width : Nat) (raw : UInt64) : Option Int64 := do
  let bits ← minus? 64 (8 * width)
  let shift ← shift? 64 bits
  return .ofBitVec ((raw <<< UInt64.ofNat shift).toBitVec.sshiftRight shift)

def fixedPoint? (width places : Nat) (bytes : Bytes) : Option Element := do
  let value ← signExtend? width (word bytes)
  if places = 0 then return .token (.integer value.toInt32)
  let shift ← shift? 32 (8 * places)
  return .token (.float (.ofFixed value.toInt shift))

def single? (bytes : Bytes) : Option Single :=
  return .ofBigEndian (← bytes[0]?) (← bytes[1]?) (← bytes[2]?) (← bytes[3]?)

/-- Copied into a buffer of eight bytes, and of no other size. -/
def double? (bytes : Bytes) : Option Element :=
  if bytes.length = 8 then some (.token (.float (.ofDoubleBits (word bytes)))) else none

/-- Pieces of four bytes; a shorter rest is left out. -/
def chunks : Bytes → List Bytes
  | a :: b :: c :: d :: rest => [a, b, c, d] :: chunks rest
  | _ => []

def sized? (n : Nat) (c : Cursor) (make : Bytes → Option Element) : Option (Element × Cursor × Bool) :=
  match c.payload n with
  | (some bytes, c) => (make bytes).map fun e => (e, c, false)
  | (none, c) => some (.fault .truncated, c, true)

/-- The product stays at the largest word when it would leave the range. -/
def counted? (width unit : Nat) (c : Cursor) (make : Bytes → Option Element) :
    Option (Element × Cursor × Bool) :=
  match c.payload width with
  | (some bytes, c) => sized? (min ((word bytes).toNat * unit) (2 ^ 64 - 1)) c make
  | (none, c) => some (.fault .truncated, c, true)

def slot? (make : UInt8 → Element) (bytes : Bytes) : Option Element := bytes[0]?.map make

def binary? (op : UInt8) (c : Cursor) : Option (Element × Cursor × Bool) :=
  let n := op.toNat
  let text bytes := some (stringElement bytes)
  if op < 0x90 then do
    let code ← minus? n 0x80
    let width := (code &&& 3) + 1
    sized? width c (fixedPoint? width (code >>> 2))
  else if op < 0xa0 then (minus? n 0x90).bind fun length => sized? length c text
  else if op < 0xa4 then (minus? n 0xa0).bind fun width => counted? (width + 1) 1 c text
  else if op == 0xa4 then sized? 4 c fun bytes => (single? bytes).map fun x => .token (.float x)
  else if op == 0xa5 then sized? 8 c double?
  else if op == 0xa6 then sized? 1 c (slot? fun code => .recall (.request code))
  else if op < 0xc8 then some (.reserved, c, false)
  else if op < 0xcc then (minus? n 0xc8).bind fun width =>
    counted? (width + 1) 4 c fun bytes => ((chunks bytes).mapM single?).map fun l => .token (.floats l)
  else if op == 0xcc then sized? 1 c (slot? fun code => .define (.request code))
  else if op == 0xcd then sized? 1 c fun bytes => some (.define (.string (word bytes).toUInt16))
  else if op == 0xce then sized? 2 c fun bytes => some (.define (.string (word bytes).toUInt16))
  else if op == 0xcf then sized? 1 c fun bytes => some (.recall (.string (word bytes).toUInt16))
  else if op == 0xd0 then sized? 2 c fun bytes => some (.recall (.string (word bytes).toUInt16))
  else some (.reserved, c, false)

theorem wordStep (n : Nat) (b : UInt8) :
    UInt64.ofNat n <<< 8 ||| b.toUInt64 = UInt64.ofNat (n * 256 + b.toNat) := by
  have low : b.toNat < 2 ^ 8 := b.toNat_lt
  apply UInt64.toNat_inj.mp
  calc (UInt64.ofNat n <<< 8 ||| b.toUInt64).toNat
      = (n % 2 ^ 64) <<< 8 % 2 ^ 64 ||| b.toNat := by simp
    _ = (n % 2 ^ 56) <<< 8 ||| b.toNat := by
      congr 1
      omega
    _ = (n % 2 ^ 56) <<< 8 + b.toNat := orLow _ low
    _ = (UInt64.ofNat (n * 256 + b.toNat)).toNat := by
      rw [UInt64.toNat_ofNat']
      omega

theorem wordValue (bytes : Bytes) : word bytes = UInt64.ofNat (bigEndian bytes) := by
  have fold : ∀ n : Nat, bytes.foldl (fun (acc : UInt64) b => acc <<< 8 ||| b.toUInt64) (.ofNat n) =
      UInt64.ofNat (bytes.foldl (fun n b => n * 256 + b.toNat) n) := by
    induction bytes with
    | nil => exact fun _ => rfl
    | cons b bytes ih =>
      intro n
      rw [List.foldl_cons, List.foldl_cons, wordStep, ih]
  exact fold 0

theorem wordNat {bytes : Bytes} (short : bytes.length ≤ 8) : (word bytes).toNat = bigEndian bytes := by
  have bound := bigEndianBound bytes
  have most : 256 ^ bytes.length ≤ 256 ^ 8 := Nat.pow_le_pow_right (by decide) short
  rw [wordValue, UInt64.toNat_ofNat']
  exact Nat.mod_eq_of_lt (by omega)

theorem shiftBack (n k bits : Nat) :
    (if 2 * (n * 2 ^ k) < 2 ^ bits * 2 ^ k then ((n * 2 ^ k : Nat) : Int)
      else (n * 2 ^ k : Nat) - (2 ^ bits * 2 ^ k : Nat)) >>> k =
    if 2 * n < 2 ^ bits then (n : Int) else n - (2 ^ bits : Nat) := by
  have unit : 0 < 2 ^ k := Nat.two_pow_pos k
  have apart : ((2 ^ k : Nat) : Int) ≠ 0 := Int.natCast_ne_zero.mpr (Nat.ne_of_gt unit)
  have same : 2 * (n * 2 ^ k) < 2 ^ bits * 2 ^ k ↔ 2 * n < 2 ^ bits := by
    rw [← Nat.mul_assoc]
    exact Nat.mul_lt_mul_right unit
  simp only [same, Int.shiftRight_eq_div_pow]
  split
  · rw [Int.natCast_mul, Int.mul_ediv_cancel _ apart]
  · rw [Int.natCast_mul, Int.natCast_mul, ← Int.sub_mul, Int.mul_ediv_cancel _ apart]

theorem signExtended {bytes : Bytes} {width : Nat} (size : bytes.length = width) (some : 0 < width)
    (fits : width ≤ 8) :
    ∃ v, signExtend? width (word bytes) = Option.some v ∧ v.toInt = signedBigEndian bytes := by
  have bound := bigEndianBound bytes
  have value : (word bytes).toNat = bigEndian bytes := wordNat (by omega)
  rw [size] at bound
  generalize shift : 64 - 8 * width = k
  have room : minus? 64 (8 * width) = Option.some k := by
    unfold minus?
    rw [if_pos (by omega), shift]
  have less : shift? 64 k = Option.some k := if_pos (by omega)
  have digits : 256 ^ width = 2 ^ (8 * width) := Nat.pow_mul 2 8 width ▸ rfl
  have whole : 2 ^ 64 = 2 ^ (8 * width) * 2 ^ k := by
    rw [← Nat.pow_add]
    congr 1
    omega
  refine ⟨.ofBitVec ((word bytes <<< UInt64.ofNat k).toBitVec.sshiftRight k), ?_, ?_⟩
  · simp [signExtend?, room, less]
  · have high : (word bytes <<< UInt64.ofNat k).toBitVec.toNat = bigEndian bytes * 2 ^ k := by
      have inside : bigEndian bytes * 2 ^ k < 2 ^ 64 := by
        rw [whole, ← digits]
        exact Nat.mul_lt_mul_of_pos_right bound (Nat.two_pow_pos k)
      have amount : (UInt64.ofNat k).toNat % 64 = k := by
        rw [UInt64.toNat_ofNat']
        omega
      calc (word bytes <<< UInt64.ofNat k).toNat
          = (word bytes).toNat <<< ((UInt64.ofNat k).toNat % 64) % 2 ^ 64 := UInt64.toNat_shiftLeft ..
        _ = bigEndian bytes * 2 ^ k := by
          rw [amount, value, Nat.shiftLeft_eq, Nat.mod_eq_of_lt inside]
    have range : ((2 ^ (8 * width) : Nat) : Int) = 256 ^ width := by
      rw [← digits]
      exact Int.natCast_pow 256 width
    unfold signedBigEndian
    rw [Int64.toInt_ofBitVec, BitVec.toInt_sshiftRight, BitVec.toInt_eq_toNat_cond, high, whole, shiftBack,
      size, digits, range]

theorem fixedGuarded {bytes : Bytes} {width places : Nat} (size : bytes.length = width) (some : 0 < width)
    (fits : width ≤ 8) (few : places < 4) :
    fixedPoint? width places bytes = Option.some (fixedPoint places bytes) := by
  obtain ⟨v, extended, value⟩ := signExtended size some fits
  have shift : shift? 32 (8 * places) = Option.some (8 * places) := if_pos (by omega)
  unfold fixedPoint? fixedPoint
  rw [extended, ← value]
  by_cases whole : places = 0
  · simp [whole, Int32.ofInt_int64ToInt]
  · simp [whole, shift]

theorem doubleGuarded {bytes : Bytes} (size : bytes.length = 8) :
    double? bytes = some (doubleElement bytes) := by
  unfold double? doubleElement
  rw [if_pos size, wordValue]

theorem chunksGuarded (bytes : Bytes) : (chunks bytes).mapM single? = some (singles bytes) := by
  match bytes with
  | [] | [_] | [_, _] | [_, _, _] => rfl
  | a :: b :: c :: d :: rest =>
    have first : single? [a, b, c, d] = some (.ofBigEndian a b c d) := rfl
    simp [chunks, singles, first, chunksGuarded rest]

theorem idGuarded (make : Slot → Element) (bytes : Bytes) :
    some (make (.string (word bytes).toUInt16)) = some ((make ∘ stringSlot) bytes) := by
  have id : (word bytes).toUInt16 = UInt16.ofNat (bigEndian bytes) := by
    apply UInt16.toNat_inj.mp
    rw [wordValue, UInt64.toNat_toUInt16, UInt64.toNat_ofNat', UInt16.toNat_ofNat']
    exact Nat.mod_mod_of_dvd _ (by decide)
  exact congrArg (fun id => some (make (.string id))) id

theorem slotGuarded (make : Slot → Element) {bytes : Bytes} (size : bytes.length = 1) :
    slot? (fun code => make (.request code)) bytes = some ((make ∘ requestSlot) bytes) := by
  match bytes, size with
  | [b], _ => simp [slot?, requestSlot, bigEndian]

section Sizes
variable {n : Nat} {make? : Bytes → Option Element} {make : Bytes → Element}

theorem sizedGuarded (right : ∀ bytes, bytes.length = n → make? bytes = some (make bytes)) (c : Cursor) :
    sized? n c make? = some (sized n c make) := by
  unfold sized? sized
  cases found : c.payload n with
  | mk taken after =>
    cases taken with
    | none => rfl
    | some bytes =>
      dsimp only
      rw [right bytes (payloadSize found)]
      rfl

theorem countedGuarded {width unit : Nat} (narrow : width ≤ 4) (small : unit ≤ 4)
    (right : ∀ bytes, make? bytes = some (make bytes)) (c : Cursor) :
    counted? width unit c make? = some (counted width unit c make) := by
  unfold counted? counted
  cases found : c.payload width with
  | mk taken after =>
    cases taken with
    | none => rfl
    | some bytes =>
      have size := payloadSize found
      have bound : bigEndian bytes < 256 ^ 4 :=
        Nat.lt_of_lt_of_le (bigEndianBound bytes) (Nat.pow_le_pow_right (by decide) (size ▸ narrow))
      have product : bigEndian bytes * unit ≤ 256 ^ 4 * 4 := Nat.mul_le_mul (Nat.le_of_lt bound) small
      dsimp only
      rw [wordNat (by omega), Nat.min_eq_left (by omega), sizedGuarded fun bytes _ => right bytes]

end Sizes

theorem minusGuarded {a b : Nat} (least : b ≤ a) : minus? a b = some (a - b) := if_pos least

theorem iteGuarded {α : Type} {p : Prop} [Decidable p] {a b : Option α} {x y : α} (yes : p → a = some x)
    (no : ¬ p → b = some y) : (if p then a else b) = some (if p then x else y) := by
  split
  · exact yes ‹_›
  · exact no ‹_›

theorem between {op low high : UInt8} (least : ¬ op < low) (most : op < high) :
    low.toNat ≤ op.toNat ∧ op.toNat < high.toNat :=
  ⟨UInt8.not_lt.mp least, UInt8.lt_iff_toNat_lt.mp most⟩

theorem binaryGuarded {op : UInt8} (high : 0x80 ≤ op) (c : Cursor) : binary? op c = some (binary op c) := by
  refine iteGuarded (fun below => ?_) fun above => ?_
  · have range : 0x80 ≤ op.toNat ∧ op.toNat < 0x90 := between (UInt8.not_lt.mpr high) below
    have width : op.toNat - 0x80 &&& 3 = (op.toNat - 0x80) % 4 := Nat.and_two_pow_sub_one_eq_mod _ 2
    have places : (op.toNat - 0x80) >>> 2 = (op.toNat - 0x80) / 4 := Nat.shiftRight_eq_div_pow _ 2
    rw [minusGuarded range.1, Option.bind_eq_bind, Option.bind_some, width, places]
    exact sizedGuarded (fun bytes size => fixedGuarded size (by omega) (by omega) (by omega)) c
  refine iteGuarded (fun below => ?_) fun above => ?_
  · have range : 0x90 ≤ op.toNat ∧ op.toNat < 0xa0 := between above below
    rw [minusGuarded range.1, Option.bind_some]
    exact sizedGuarded (fun _ _ => rfl) c
  refine iteGuarded (fun below => ?_) fun _ => ?_
  · have range : 0xa0 ≤ op.toNat ∧ op.toNat < 0xa4 := between above below
    rw [minusGuarded range.1, Option.bind_some]
    exact countedGuarded (by omega) (by decide) (fun _ => rfl) c
  refine iteGuarded (fun _ => sizedGuarded (fun bytes size => ?_) c) fun _ => ?_
  · match bytes, size with
    | [a, b, c, d], _ => rfl
  refine iteGuarded (fun _ => sizedGuarded (fun _ => doubleGuarded) c) fun _ => ?_
  refine iteGuarded (fun _ => sizedGuarded (fun _ => slotGuarded .recall) c) fun _ => ?_
  refine iteGuarded (fun _ => rfl) fun above => ?_
  refine iteGuarded (fun below => ?_) fun _ => ?_
  · have range : 0xc8 ≤ op.toNat ∧ op.toNat < 0xcc := between above below
    rw [minusGuarded range.1, Option.bind_some]
    exact countedGuarded (by omega) (by decide) (fun bytes => by rw [chunksGuarded]; rfl) c
  refine iteGuarded (fun _ => sizedGuarded (fun _ => slotGuarded .define) c) fun _ => ?_
  refine iteGuarded (fun _ => sizedGuarded (fun bytes _ => idGuarded .define bytes) c) fun _ => ?_
  refine iteGuarded (fun _ => sizedGuarded (fun bytes _ => idGuarded .define bytes) c) fun _ => ?_
  refine iteGuarded (fun _ => sizedGuarded (fun bytes _ => idGuarded .recall bytes) c) fun _ => ?_
  exact iteGuarded (fun _ => sizedGuarded (fun bytes _ => idGuarded .recall bytes) c) fun _ => rfl

end Guarded
end SceneStream.Stream
