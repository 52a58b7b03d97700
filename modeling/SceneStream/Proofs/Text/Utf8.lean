import SceneStream.Text.Utf8

/-! Decoding undoes encoding. A first byte opens its character with room for the second byte, and
each later byte has room for the next, so no byte of an encoded character is replaced. -/
namespace SceneStream.Text.Utf8

def Opens (b : UInt8) (owed bits next : Nat) : Prop :=
  ∃ p, lead b = .begun p ∧ p.owed = owed ∧ p.bits = bits ∧ p.low.toNat ≤ next ∧ next ≤ p.high.toNat

theorem leadAscii {v : Nat} (high : v ≤ 0x7f) : lead (UInt8.ofNat v) = .char (Char.ofNat v) := by
  have n : (UInt8.ofNat v).toNat = v := by simp; omega
  simp only [lead, UInt8.lt_iff_toNat_lt, n, UInt8.reduceToNat]
  rw [if_pos (by omega)]

theorem opensTwo {v : Nat} (low : 0x7f < v) (high : v ≤ 0x7ff) :
    Opens (UInt8.ofNat (v / 64 % 0x20 + 0xc0)) 1 (v / 64) (v % 64 + 0x80) := by
  have n : (UInt8.ofNat (v / 64 % 0x20 + 0xc0)).toNat = v / 64 + 0xc0 := by simp; omega
  simp only [Opens, lead, UInt8.lt_iff_toNat_lt, n, UInt8.reduceToNat]
  rw [if_neg (by omega), if_neg (by omega), if_pos (by omega)]
  exact ⟨_, rfl, rfl, by show (v / 64 + 0xc0) % 32 = v / 64; omega, by simp, by simp; omega⟩

theorem opensThree {v : Nat} (low : 0x7ff < v) (high : v ≤ 0xffff)
    (valid : v < 0xd800 ∨ 0xdfff < v) :
    Opens (UInt8.ofNat (v / 4096 % 0x10 + 0xe0)) 2 (v / 4096) (v / 64 % 64 + 0x80) := by
  have n : (UInt8.ofNat (v / 4096 % 0x10 + 0xe0)).toNat = v / 4096 + 0xe0 := by simp; omega
  simp only [Opens, lead, UInt8.lt_iff_toNat_lt, n, beq_iff_eq, ← UInt8.toNat_inj, UInt8.reduceToNat]
  rw [if_neg (by omega), if_neg (by omega), if_neg (by omega)]
  by_cases first : v / 4096 + 0xe0 = 0xe0
  · rw [if_pos first]
    exact ⟨_, rfl, rfl, by show 0 = v / 4096; omega, by simp; omega, by simp; omega⟩
  · rw [if_neg first]
    -- After 0xed only the characters below the surrogates are left.
    by_cases surrogate : v / 4096 + 0xe0 = 0xed
    · rw [if_pos surrogate]
      exact ⟨_, rfl, rfl, by show 13 = v / 4096; omega, by simp, by simp; omega⟩
    · rw [if_neg surrogate, if_pos (by omega)]
      exact ⟨_, rfl, rfl, by show (v / 4096 + 0xe0) % 16 = v / 4096; omega, by simp, by simp; omega⟩

theorem opensFour {v : Nat} (low : 0xffff < v) (high : v < 0x110000) :
    Opens (UInt8.ofNat (v / 262144 % 0x08 + 0xf0)) 3 (v / 262144) (v / 4096 % 64 + 0x80) := by
  have n : (UInt8.ofNat (v / 262144 % 0x08 + 0xf0)).toNat = v / 262144 + 0xf0 := by simp; omega
  simp only [Opens, lead, UInt8.lt_iff_toNat_lt, n, beq_iff_eq, ← UInt8.toNat_inj, UInt8.reduceToNat]
  rw [if_neg (by omega), if_neg (by omega), if_neg (by omega), if_neg (by omega), if_neg (by omega),
    if_neg (by omega)]
  by_cases first : v / 262144 + 0xf0 = 0xf0
  · rw [if_pos first]
    exact ⟨_, rfl, rfl, by show 0 = v / 262144; omega, by simp; omega, by simp; omega⟩
  · rw [if_neg first]
    by_cases middle : v / 262144 + 0xf0 < 0xf4
    · rw [if_pos middle]
      exact ⟨_, rfl, rfl, by show (v / 262144 + 0xf0) % 8 = v / 262144; omega, by simp, by simp; omega⟩
    · rw [if_neg middle, if_pos (by omega)]
      exact ⟨_, rfl, rfl, by show 4 = v / 262144; omega, by simp, by simp; omega⟩

theorem stepOwed {cs : List Char} {p : Begun} {n : Nat} (bound : n < 64)
    (low : p.low.toNat ≤ n + 0x80) (high : n + 0x80 ≤ p.high.toNat) :
    step ⟨cs, some p⟩ (UInt8.ofNat (n + 0x80)) =
      if p.owed ≤ 1 then ⟨Char.ofNat (p.bits * 64 + n) :: cs, none⟩
      else ⟨cs, some ⟨p.owed - 1, 0x80, 0xbf, p.bits * 64 + n⟩⟩ := by
  have value : (UInt8.ofNat (n + 0x80)).toNat = n + 0x80 := by simp; omega
  have fits : (p.low ≤ UInt8.ofNat (n + 0x80) && UInt8.ofNat (n + 0x80) ≤ p.high) = true := by
    simp only [UInt8.le_iff_toNat_le, value, low, high, decide_true, Bool.and_self]
  have six : (n + 0x80) % 64 = n := by omega
  simp only [step, fits, if_true, value, six]

theorem charOfVal (c : Char) : Char.ofNat c.val.toNat = c := Char.ofNat_toNat c

theorem foldChar (cs : List Char) (c : Char) :
    (String.utf8EncodeChar c).foldl step ⟨cs, none⟩ = ⟨c :: cs, none⟩ := by
  have valid : c.val.toNat < 0xd800 ∨ 0xdfff < c.val.toNat ∧ c.val.toNat < 0x110000 := c.valid
  have char := charOfVal c
  unfold String.utf8EncodeChar
  generalize c.val.toNat = v at valid char
  dsimp only
  split
  · simp only [List.foldl_cons, List.foldl_nil, step, start, leadAscii ‹_›, char]
  · split
    · obtain ⟨p, opened, owed, bits, low, high⟩ := opensTwo (v := v) (by omega) (by omega)
      simp only [List.foldl_cons, List.foldl_nil]
      rw [show step ⟨cs, none⟩ _ = ⟨cs, some p⟩ by simp only [step, start, opened],
        stepOwed (by omega) low high, if_pos (by omega), bits, ← char]
      congr 3; omega
    · split
      · obtain ⟨p, opened, owed, bits, low, high⟩ := opensThree (v := v) (by omega) (by omega) (by omega)
        simp only [List.foldl_cons, List.foldl_nil]
        rw [show step ⟨cs, none⟩ _ = ⟨cs, some p⟩ by simp only [step, start, opened],
          stepOwed (by omega) low high, if_neg (by omega),
          stepOwed (by omega) (by simp) (by simp; omega), if_pos (by simp; omega), bits, ← char]
        congr 3; simp only; omega
      · obtain ⟨p, opened, owed, bits, low, high⟩ := opensFour (v := v) (by omega) (by omega)
        simp only [List.foldl_cons, List.foldl_nil]
        rw [show step ⟨cs, none⟩ _ = ⟨cs, some p⟩ by simp only [step, start, opened],
          stepOwed (by omega) low high, if_neg (by omega),
          stepOwed (by omega) (by simp) (by simp; omega), if_neg (by simp; omega),
          stepOwed (by omega) (by simp) (by simp; omega), if_pos (by simp; omega), bits, ← char]
        congr 3; simp only; omega

theorem foldChars (cs done : List Char) :
    (cs.flatMap String.utf8EncodeChar).foldl step ⟨done, none⟩ = ⟨cs.reverse ++ done, none⟩ := by
  induction cs generalizing done with
  | nil => rfl
  | cons c cs ih => simp only [List.flatMap_cons, List.foldl_append, foldChar, ih, List.reverse_cons,
      List.append_assoc, List.singleton_append]

/-! Where a byte below 0x80 stands, it is a character. -/

def byte (c : Char) : UInt8 := UInt8.ofNat c.toNat

theorem encodeAsciiChar {c : Char} (low : c.toNat < 0x80) : String.utf8EncodeChar c = [byte c] := by
  have value : c.val.toNat ≤ 0x7f := Nat.le_of_lt_succ low
  unfold String.utf8EncodeChar
  rw [if_pos value]
  rfl

theorem encodeCharHigh {c : Char} (high : 0x80 ≤ c.toNat) {b : UInt8}
    (member : b ∈ String.utf8EncodeChar c) : 0x80 ≤ b.toNat := by
  have value : 0x80 ≤ c.val.toNat := high
  have valid : c.val.toNat < 0xd800 ∨ 0xdfff < c.val.toNat ∧ c.val.toNat < 0x110000 := c.valid
  unfold String.utf8EncodeChar at member
  generalize c.val.toNat = v at value valid member
  dsimp only at member
  rw [if_neg (by omega)] at member
  split at member
  · simp only [List.mem_cons, List.not_mem_nil, or_false] at member
    rcases member with rfl | rfl <;> simp <;> omega
  · split at member
    · simp only [List.mem_cons, List.not_mem_nil, or_false] at member
      rcases member with rfl | rfl | rfl <;> simp <;> omega
    · simp only [List.mem_cons, List.not_mem_nil, or_false] at member
      rcases member with rfl | rfl | rfl | rfl <;> simp <;> omega

theorem encodeCharLow {c : Char} {b : UInt8} (member : b ∈ String.utf8EncodeChar c)
    (low : b.toNat < 0x80) : c.toNat = b.toNat := by
  by_cases ascii : c.toNat < 0x80
  · rw [encodeAsciiChar ascii, List.mem_singleton] at member
    subst member
    simp only [byte, UInt8.toNat_ofNat']
    omega
  · have := encodeCharHigh (Nat.le_of_not_lt ascii) member
    omega

theorem encodeChars (cs : List Char) :
    encode (String.ofList cs) = cs.flatMap String.utf8EncodeChar := by
  simp [encode]

theorem encodeAppend (s t : String) : encode (s ++ t) = encode s ++ encode t := by
  simp [encode]

theorem encodeAsciiChars {cs : List Char} (low : ∀ c ∈ cs, c.toNat < 0x80) :
    cs.flatMap String.utf8EncodeChar = cs.map byte := by
  induction cs with
  | nil => rfl
  | cons c cs ih =>
    rw [List.flatMap_cons, encodeAsciiChar (low c (by simp)), ih fun d member => low d (by simp [member])]
    rfl

theorem encodeAscii {s : String} (low : ∀ c ∈ s.toList, c.toNat < 0x80) :
    encode s = s.toList.map byte := encodeAsciiChars low

theorem decodeEncode (s : String) : decode (encode s) = s := by
  simp [decode, encode, foldChars, finish]

end SceneStream.Text.Utf8
