import SceneStream.Proofs.Stream.Reads
import SceneStream.Proofs.Text.Utf8
import SceneStream.Stream.Encoding

/-! Elements written in binary: integers, floats, strings, and the opcodes that define and recall short
forms. A payload is as long as its opcode and its length say, so what comes after it does not matter. -/
namespace SceneStream.Stream
open Text.Utf8 (decodeEncode)

/-! Big-endian numbers. -/

theorem bigEndianLength (width n : Nat) : (bigEndianBytes width n).length = width := by
  induction width generalizing n with
  | zero => rfl
  | succ width ih => simp [bigEndianBytes, ih]

theorem bigEndianValue (width n : Nat) : bigEndian (bigEndianBytes width n) = n % 256 ^ width := by
  induction width generalizing n with
  | zero => exact (Nat.mod_one n).symm
  | succ width ih =>
    have last : (UInt8.ofNat (n % 256)).toNat = n % 256 := by simp
    have front := ih (n / 256)
    unfold bigEndian at front ⊢
    rw [bigEndianBytes, List.foldl_append, front, List.foldl_cons, List.foldl_nil, last, Nat.pow_succ,
      Nat.mul_comm (256 ^ width), Nat.mod_mul]
    omega

theorem signedValue (n : Int32) :
    signedBigEndian (bigEndianBytes (Writer.integerWidth n.toInt) n.toUInt32.toNat) = n.toInt := by
  have bits : n.toInt = if 2 * n.toUInt32.toNat < 2 ^ 32 then (n.toUInt32.toNat : Int)
      else n.toUInt32.toNat - (2 ^ 32 : Nat) := BitVec.toInt_eq_toNat_cond n.toBitVec
  have size := n.toUInt32.toNat_lt
  unfold signedBigEndian
  dsimp only
  rw [bigEndianValue, bigEndianLength]
  unfold Writer.integerWidth
  generalize n.toUInt32.toNat = u at bits size ⊢
  generalize n.toInt = i at bits ⊢
  simp only [Bool.and_eq_true, decide_eq_true_eq]
  split
  · split at bits <;> split <;> omega
  split
  · split at bits <;> split <;> omega
  split
  · split at bits <;> split <;> omega
  · split at bits <;> split <;> omega

theorem lengthWidthBound {n : Nat} (short : n < 2 ^ 32) : n < 256 ^ Writer.lengthWidth n := by
  unfold Writer.lengthWidth
  split
  · omega
  split
  · omega
  split <;> omega

/-! Singles. -/

theorem orLow {n i : Nat} (m : Nat) (low : n < 2 ^ i) : m <<< i ||| n = m <<< i + n :=
  (Nat.shiftLeft_add_eq_or_of_lt low m).symm

theorem ofBigEndianBits (a b c d : UInt8) : (Single.ofBigEndian a b c d).bits.toNat =
    ((a.toNat * 256 + b.toNat) * 256 + c.toNat) * 256 + d.toNat := by
  have boundA := a.toNat_lt
  have boundB := b.toNat_lt
  have boundC := c.toNat_lt
  have boundD := d.toNat_lt
  have shifts : (Single.ofBigEndian a b c d).bits.toNat =
      a.toNat <<< 24 % 2 ^ 32 ||| b.toNat <<< 16 % 2 ^ 32 ||| c.toNat <<< 8 % 2 ^ 32 ||| d.toNat := by
    simp [Single.ofBigEndian]
  rw [shifts]
  generalize a.toNat = a at *
  generalize b.toNat = b at *
  generalize c.toNat = c at *
  generalize d.toNat = d at *
  have first : a <<< 24 % 2 ^ 32 ||| b <<< 16 % 2 ^ 32 = (a * 256 + b) <<< 16 := by
    rw [Nat.mod_eq_of_lt (by omega), Nat.mod_eq_of_lt (by omega), orLow a (by omega)]
    omega
  have second : (a * 256 + b) <<< 16 ||| c <<< 8 % 2 ^ 32 = ((a * 256 + b) * 256 + c) <<< 8 := by
    rw [Nat.mod_eq_of_lt (by omega), orLow _ (by omega)]
    omega
  rw [first, second, orLow _ boundD]
  omega

theorem singleBytes (x : Single) (rest : Bytes) : singles (x.bigEndian ++ rest) = x :: singles rest := by
  have bits : (Single.ofBigEndian (x.bits >>> 24).toUInt8 (x.bits >>> 16).toUInt8
      (x.bits >>> 8).toUInt8 x.bits.toUInt8).bits = x.bits := by
    have size := x.bits.toNat_lt
    apply UInt32.toNat_inj.mp
    rw [ofBigEndianBits]
    simp only [UInt32.toNat_toUInt8, UInt32.toNat_shiftRight, UInt32.reduceToNat, Nat.reduceMod,
      Nat.reducePow, Nat.shiftRight_eq_div_pow]
    omega
  show Single.ofBigEndian _ _ _ _ :: singles rest = x :: singles rest
  cases x
  exact congrArg (fun bits => Single.mk bits :: singles rest) bits

theorem singlesPayload (l : List Single) : singles (Writer.floatPayload l) = l := by
  induction l with
  | nil => rfl
  | cons x l ih =>
    unfold Writer.floatPayload at ih ⊢
    rw [List.flatMap_cons, singleBytes, ih]

theorem payloadLength (l : List Single) : (Writer.floatPayload l).length = l.length * 4 := by
  induction l with
  | nil => rfl
  | cons x l ih =>
    unfold Writer.floatPayload at ih ⊢
    rw [List.flatMap_cons, List.length_append, ih, List.length_cons, Nat.succ_mul, Nat.add_comm]
    rfl

/-! Payloads. -/

variable {rest : Bytes}

theorem payloadWhole (bytes rest : Bytes) (line : Nat) :
    Cursor.payload bytes.length ⟨bytes ++ rest, line⟩ = (some bytes, ⟨rest, line⟩) := by
  unfold Cursor.payload
  rw [Cursor.takeExactlyComplete]
  rfl

theorem sizedWhole {n : Nat} {bytes : Bytes} (size : bytes.length = n) (make : Bytes → Element)
    (line : Nat) : sized n ⟨bytes ++ rest, line⟩ make = (make bytes, ⟨rest, line⟩, false) := by
  unfold sized
  rw [← size, payloadWhole]

theorem countedWhole {width unit : Nat} {n : Nat} {bytes : Bytes} (fits : n < 256 ^ width)
    (size : bytes.length = n * unit) (make : Bytes → Element) (line : Nat) :
    counted width unit ⟨bigEndianBytes width n ++ (bytes ++ rest), line⟩ make =
      (make bytes, ⟨rest, line⟩, false) := by
  have length := payloadWhole (bigEndianBytes width n) (bytes ++ rest) line
  rw [bigEndianLength] at length
  unfold counted
  rw [length]
  dsimp only
  rw [bigEndianValue, Nat.mod_eq_of_lt fits, sizedWhole size]

/-! Opcodes. -/

theorem binarySpells {op : UInt8} {tail : Bytes} {e : Element} (high : 0x80 ≤ op.toNat)
    (reads : ∀ line, binary op ⟨tail ++ rest, line⟩ = (e, ⟨rest, line⟩, false)) :
    Spells (op :: tail) rest e := by
  refine spellsElement ?_ fun line => ⟨line, false, ?_⟩
  · simp only [isBlank, Bool.or_eq_false_iff, beq_eq_false_iff_ne, ne_eq, ← UInt8.toNat_inj,
      UInt8.reduceToNat]
    omega
  · unfold elementAt
    have binary : 0x80 ≤ op := UInt8.le_iff_toNat_le.mpr high
    rw [if_pos binary, reads line]

theorem binaryInteger {op : UInt8} {k : Nat} (code : op.toNat = 0x80 + k) (few : k < 4) (c : Cursor) :
    binary op c = sized (k + 1) c (fixedPoint 0) := by
  have place : (0x80 + k - 0x80) / 4 = 0 := by omega
  have width : (0x80 + k - 0x80) % 4 + 1 = k + 1 := by omega
  unfold binary
  simp only [UInt8.lt_iff_toNat_lt, code, UInt8.reduceToNat]
  rw [if_pos (by omega), place, width]

theorem binaryShort {op : UInt8} {k : Nat} (code : op.toNat = 0x90 + k) (few : k < 16) (c : Cursor) :
    binary op c = sized k c stringElement := by
  unfold binary
  simp only [UInt8.lt_iff_toNat_lt, code, UInt8.reduceToNat]
  rw [if_neg (by omega), if_pos (by omega), Nat.add_sub_cancel_left]

theorem binaryLong {op : UInt8} {k : Nat} (code : op.toNat = 0xa0 + k) (few : k < 4) (c : Cursor) :
    binary op c = counted (k + 1) 1 c stringElement := by
  unfold binary
  simp only [UInt8.lt_iff_toNat_lt, code, UInt8.reduceToNat]
  rw [if_neg (by omega), if_neg (by omega), if_pos (by omega), Nat.add_sub_cancel_left]

theorem binaryFloats {op : UInt8} {k : Nat} (code : op.toNat = 0xc8 + k) (few : k < 4) (c : Cursor) :
    binary op c = counted (k + 1) 4 c fun bs => .token (.floats (singles bs)) := by
  unfold binary
  simp only [UInt8.lt_iff_toNat_lt, beq_iff_eq, ← UInt8.toNat_inj, code, UInt8.reduceToNat]
  rw [if_neg (by omega), if_neg (by omega), if_neg (by omega), if_neg (by omega), if_neg (by omega),
    if_neg (by omega), if_neg (by omega), if_pos (by omega), Nat.add_sub_cancel_left]

theorem integerPacked (n : Int32) : Spells (Writer.integer n) rest (.token (.integer n)) := by
  have signed := signedValue n
  have some : 0 < Writer.integerWidth n.toInt ∧ Writer.integerWidth n.toInt ≤ 4 := by
    unfold Writer.integerWidth
    split
    · omega
    split
    · omega
    split <;> omega
  unfold Writer.integer
  dsimp only
  generalize Writer.integerWidth n.toInt = width at signed some ⊢
  have code : (0x80 + UInt8.ofNat (width - 1)).toNat = 0x80 + (width - 1) := by
    simp only [UInt8.toNat_add, UInt8.toNat_ofNat', UInt8.reduceToNat]
    omega
  refine binarySpells (by omega) fun line => ?_
  rw [binaryInteger code (by omega), Nat.sub_add_cancel some.1, sizedWhole (bigEndianLength ..)]
  simp only [fixedPoint, signed, if_true, Int32.ofInt_toInt]

theorem lengthSpells (op : UInt8) {n unit : Nat} {make : Bytes → Element} {bytes : Bytes}
    (opcode : ∀ {op' : UInt8} {k : Nat}, op'.toNat = op.toNat + k → k < 4 → ∀ c,
      binary op' c = counted (k + 1) unit c make)
    (range : 0x80 ≤ op.toNat ∧ op.toNat ≤ 0xfc) (short : n < 2 ^ 32) (size : bytes.length = n * unit) :
    Spells (Writer.lengthBytes op n ++ bytes) rest (make bytes) := by
  have fits := lengthWidthBound short
  have some : 0 < Writer.lengthWidth n ∧ Writer.lengthWidth n ≤ 4 := by
    unfold Writer.lengthWidth
    split
    · omega
    split
    · omega
    split <;> omega
  unfold Writer.lengthBytes
  dsimp only
  generalize Writer.lengthWidth n = width at fits some ⊢
  have code : (op + UInt8.ofNat (width - 1)).toNat = op.toNat + (width - 1) := by
    simp only [UInt8.toNat_add, UInt8.toNat_ofNat']
    omega
  rw [List.cons_append]
  refine binarySpells (by omega) fun line => ?_
  rw [opcode code (by omega), Nat.sub_add_cancel some.1, List.append_assoc]
  exact countedWhole fits size make line

theorem literalPacked {s : String} (short : (bytesOf s).length < 2 ^ 32) :
    Spells (Writer.literal s) rest (.token (.string s)) := by
  have text : stringElement (bytesOf s) = .token (.string s) := by
    unfold stringElement bytesOf
    rw [decodeEncode]
  unfold Writer.literal
  dsimp only
  split
  · rename_i few
    have code : (0x90 + UInt8.ofNat (bytesOf s).length).toNat = 0x90 + (bytesOf s).length := by
      simp only [UInt8.toNat_add, UInt8.toNat_ofNat', UInt8.reduceToNat]
      omega
    refine binarySpells (by omega) fun line => ?_
    rw [binaryShort code few, sizedWhole rfl, text]
  · rw [← text]
    exact lengthSpells 0xa0 binaryLong (by decide) short (Nat.mul_one _).symm

theorem floatPacked (x : Single) : Spells (0xa4 :: x.bigEndian) rest (.token (.float x)) := by
  have single : singles x.bigEndian = [x] := singleBytes x []
  refine binarySpells (by decide) fun line => ?_
  calc binary 0xa4 ⟨x.bigEndian ++ rest, line⟩
      = sized 4 ⟨x.bigEndian ++ rest, line⟩ (fun bs => .token (.float ((singles bs).headD .zero))) := rfl
    _ = (.token (.float x), ⟨rest, line⟩, false) := by
        rw [sizedWhole (show x.bigEndian.length = 4 from rfl), single]
        rfl

theorem floatsPacked {l : List Single} (short : l.length < 2 ^ 32) :
    Spells (Writer.lengthBytes 0xc8 l.length ++ Writer.floatPayload l) rest (.token (.floats l)) := by
  have floats := singlesPayload l
  have spells : Spells (Writer.lengthBytes 0xc8 l.length ++ Writer.floatPayload l) rest _ :=
    lengthSpells 0xc8 binaryFloats (by decide) short (payloadLength l)
  rwa [floats] at spells

/-! Short forms. -/

theorem slotSpells {op : UInt8} {tail : Bytes} {width : Nat} {make : Bytes → Element}
    (high : 0x80 ≤ op.toNat) (opcode : ∀ c, binary op c = sized width c make)
    (size : tail.length = width) : Spells (op :: tail) rest (make tail) := by
  refine binarySpells high fun line => ?_
  rw [opcode, sizedWhole size]

theorem requestDefined (code : UInt8) : Spells [0xcc, code] rest (.define (.request code)) := by
  have spells : Spells [0xcc, code] rest _ := slotSpells (by decide) (fun _ => rfl) rfl
  have slot : requestSlot [code] = .request code := by
    simp [requestSlot, bigEndian]
  rwa [Function.comp, slot] at spells

theorem requestRecalled (code : UInt8) : Spells [0xa6, code] rest (.recall (.request code)) := by
  have spells : Spells [0xa6, code] rest _ := slotSpells (by decide) (fun _ => rfl) rfl
  have slot : requestSlot [code] = .request code := by
    simp [requestSlot, bigEndian]
  rwa [Function.comp, slot] at spells

theorem stringIdSpells {short long : UInt8} {make : Slot → Element}
    (one : ∀ c, binary short c = sized 1 c (make ∘ stringSlot))
    (two : ∀ c, binary long c = sized 2 c (make ∘ stringSlot))
    (high : 0x80 ≤ short.toNat ∧ 0x80 ≤ long.toNat) {id : Nat} (bound : id < 0x10000) :
    Spells (Writer.stringId short long id) rest (make (.string (UInt16.ofNat id))) := by
  unfold Writer.stringId
  split
  · have spells : Spells [short, UInt8.ofNat id] rest _ := slotSpells high.1 one rfl
    have slot : stringSlot [UInt8.ofNat id] = .string (UInt16.ofNat id) := by
      have value : bigEndian [UInt8.ofNat id] = id := by
        simp only [bigEndian, List.foldl_cons, List.foldl_nil, UInt8.toNat_ofNat']
        omega
      rw [stringSlot, value]
    rwa [Function.comp, slot] at spells
  · have spells : Spells (long :: bigEndianBytes 2 id) rest _ :=
      slotSpells high.2 two (bigEndianLength 2 id)
    have fits : id < 256 ^ 2 := by omega
    have slot : stringSlot (bigEndianBytes 2 id) = .string (UInt16.ofNat id) := by
      rw [stringSlot, bigEndianValue, Nat.mod_eq_of_lt fits]
    rwa [Function.comp, slot] at spells

theorem stringDefined {id : Nat} (bound : id < 0x10000) :
    Spells (Writer.stringId 0xcd 0xce id) rest (.define (.string (UInt16.ofNat id))) :=
  stringIdSpells (fun _ => rfl) (fun _ => rfl) (by decide) bound

theorem stringRecalled {id : Nat} (bound : id < 0x10000) :
    Spells (Writer.stringId 0xcf 0xd0 id) rest (.recall (.string (UInt16.ofNat id))) :=
  stringIdSpells (fun _ => rfl) (fun _ => rfl) (by decide) bound

end SceneStream.Stream
