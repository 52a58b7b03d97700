import SceneStream.Number.Decimal

/-! Numerals: how a number is written, part by part. Each is read as the number that its parts tell,
and the digits of a natural number tell that number. -/
namespace SceneStream.Number

/-! The longest piece of one class. -/

theorem takeWhileAppend {α : Type} {p : α → Bool} {a b : List α} (all : ∀ x ∈ a, p x = true)
    (stop : ∀ x ∈ b.head?, p x = false) : (a ++ b).takeWhile p = a := by
  rw [List.takeWhile_append_of_pos all]
  cases b with
  | nil => simp
  | cons x b => simp [stop x rfl]

theorem dropWhileAppend {α : Type} {p : α → Bool} {a b : List α} (all : ∀ x ∈ a, p x = true)
    (stop : ∀ x ∈ b.head?, p x = false) : (a ++ b).dropWhile p = b := by
  rw [List.dropWhile_append_of_pos all]
  cases b with
  | nil => rfl
  | cons x b => simp [stop x rfl]

/-! Digits. -/

structure Digits where
  chars : List Char
  some : chars ≠ []
  every : ∀ c ∈ chars, isDigit c = true

namespace Digits

def ofNat (n : Nat) : Digits where
  chars := Nat.toDigits 10 n
  some := Nat.toDigits_ne_nil
  every := fun _ member => Nat.isDigit_of_mem_toDigits (by decide) (by decide) member

def raised (n k : Nat) : Digits where
  chars := Nat.toDigits 10 n ++ List.replicate k '0'
  some := by simp
  every := by
    intro c member
    rcases List.mem_append.mp member with member | member
    · exact (ofNat n).every c member
    · rw [List.eq_of_mem_replicate member]
      rfl

def lowered (k n : Nat) : Digits where
  chars := List.replicate k '0' ++ Nat.toDigits 10 n
  some := by simp
  every := by
    intro c member
    rcases List.mem_append.mp member with member | member
    · rw [List.eq_of_mem_replicate member]
      rfl
    · exact (ofNat n).every c member

def part (n : Nat) {cs : List Char} (some : cs ≠ []) (inside : cs ⊆ Nat.toDigits 10 n) : Digits where
  chars := cs
  some := some
  every := fun c member => (ofNat n).every c (inside member)

theorem head (ds : Digits) : ∃ c tail, ds.chars = c :: tail ∧ isDigit c = true := by
  cases same : ds.chars with
  | nil => exact absurd same ds.some
  | cons c tail => exact ⟨c, tail, rfl, ds.every c (by simp [same])⟩

end Digits

theorem digitsValueChars (cs : List Char) : digitsValue cs = Nat.ofDigitChars 10 cs 0 :=
  digitsValueFold cs

theorem digitsValueNat (n : Nat) : digitsValue (Nat.toDigits 10 n) = n := by
  rw [digitsValueChars, Nat.ofDigitChars_ten_toDigits]

theorem digitsValueZeros (k : Nat) (cs : List Char) :
    digitsValue (List.replicate k '0' ++ cs) = digitsValue cs := by
  simp only [digitsValueChars, Nat.ofDigitChars_append, Nat.ofDigitChars_replicate_zero, Nat.mul_zero]

theorem digitsValueShift (k : Nat) (cs : List Char) :
    digitsValue (cs ++ List.replicate k '0') = digitsValue cs * 10 ^ k := by
  simp only [digitsValueChars, Nat.ofDigitChars_append, Nat.ofDigitChars_replicate_zero, Nat.mul_comm]

theorem exponentValueSmall {cs : List Char} (small : digitsValue cs < exponentLimit) :
    exponentValue cs = digitsValue cs := by
  have whole : ∀ (cs : List Char) (n : Nat), cs.foldl addDigit n < exponentLimit →
      cs.foldl (fun n c => if n < exponentLimit then addDigit n c else n) n = cs.foldl addDigit n := by
    intro cs
    induction cs with
    | nil => intro n _; rfl
    | cons c cs ih =>
      intro n below
      have grows := foldDigits (c :: cs) n
      have more : n ≤ n * 10 ^ (c :: cs).length := Nat.le_mul_of_pos_right n (Nat.pow_pos (by decide))
      have here : n < exponentLimit := by omega
      simp only [List.foldl_cons, here, if_true]
      exact ih _ below
  rw [digitsValueFold] at small ⊢
  exact whole cs 0 small

/-! Signs. -/

def signText (negative : Bool) : List Char := if negative then ['-'] else []

theorem splitSignText (negative : Bool) {cs : List Char} (digit : ∃ c ∈ cs.head?, isDigit c = true) :
    splitSign (signText negative ++ cs) = (negative, cs) := by
  cases negative with
  | true => rfl
  | false =>
    cases cs with
    | nil => simp at digit
    | cons c cs =>
      have kind : isDigit c = true := by simpa using digit
      unfold splitSign
      simp only [signText, Bool.false_eq_true, if_false, List.nil_append]
      split
      · rename_i same
        cases (List.cons.inj same).1
        contradiction
      · rename_i same
        cases (List.cons.inj same).1
        contradiction
      · rfl

theorem signedText (value : List Char → Nat) (negative : Bool) (ds : Digits) :
    signed? value (signText negative ++ ds.chars) =
      some (if negative then -(value ds.chars : Int) else value ds.chars) := by
  obtain ⟨c, tail, same, digit⟩ := ds.head
  unfold signed?
  rw [splitSignText negative ⟨c, by simp [same], digit⟩]
  have all : ds.chars.all isDigit = true := List.all_eq_true.mpr ds.every
  simp [ds.some, all]

theorem intText (n : Int) :
    (toString n).toList = signText (n < 0) ++ (Digits.ofNat n.natAbs).chars := by
  rw [Int.toString_eq_repr, Int.repr_eq_if]
  by_cases negative : n < 0
  · have abs : (-n).toNat = n.natAbs := by omega
    simp [signText, negative, Digits.ofNat, abs, Int.not_le.mpr negative]
  · have abs : n.toNat = n.natAbs := by omega
    simp [signText, negative, Digits.ofNat, abs, Int.not_lt.mp negative]

/-! Numerals. -/

structure Numeral where
  negative : Bool
  whole : Digits
  places : Option Digits
  power : Option (Bool × Digits)

namespace Numeral

def placeDigits (n : Numeral) : List Char := (n.places.map Digits.chars).getD []

def placeText (n : Numeral) : List Char :=
  match n.places with
  | none => []
  | some ds => '.' :: ds.chars

def powerText (n : Numeral) : List Char :=
  match n.power with
  | none => []
  | some (negative, ds) => 'e' :: signText negative ++ ds.chars

def text (n : Numeral) : List Char :=
  signText n.negative ++ n.whole.chars ++ n.placeText ++ n.powerText

def exponent (n : Numeral) : Int :=
  match n.power with
  | none => 0
  | some (negative, ds) => if negative then -(exponentValue ds.chars : Int) else exponentValue ds.chars

def decimal (n : Numeral) : Decimal :=
  ⟨n.negative, digitsValue (n.whole.chars ++ n.placeDigits), n.exponent - n.placeDigits.length⟩

theorem powerShape (n : Numeral) : n.powerText = [] ∨ ∃ cs, n.powerText = 'e' :: cs := by
  unfold powerText
  split
  · exact .inl rfl
  · exact .inr ⟨_, rfl⟩

theorem powerHead (n : Numeral) : ∀ c ∈ n.powerText.head?, c = 'e' := by
  obtain bare | ⟨cs, marked⟩ := n.powerShape
  · simp [bare]
  · simp [marked]

theorem placeHead (n : Numeral) : ∀ c ∈ (n.placeText ++ n.powerText).head?, c = '.' ∨ c = 'e' := by
  unfold placeText
  split
  · exact fun c member => .inr (n.powerHead c member)
  · simp

theorem signChars {negative : Bool} {ds : Digits} {c : Char}
    (member : c ∈ signText negative ++ ds.chars) : c = '-' ∨ isDigit c = true := by
  rcases List.mem_append.mp member with sign | digit
  · unfold signText at sign
    split at sign
    · exact .inl (List.mem_singleton.mp sign)
    · contradiction
  · exact .inr (ds.every c digit)

theorem textChars (n : Numeral) {c : Char} (member : c ∈ n.text) :
    c = '-' ∨ c = '.' ∨ c = 'e' ∨ isDigit c = true := by
  unfold text placeText powerText at member
  rcases List.mem_append.mp member with member | power
  · rcases List.mem_append.mp member with whole | places
    · rcases signChars whole with sign | digit
      · exact .inl sign
      · exact .inr (.inr (.inr digit))
    · split at places
      · contradiction
      · rename_i ds _
        rcases List.mem_cons.mp places with point | digit
        · exact .inr (.inl point)
        · exact .inr (.inr (.inr (ds.every c digit)))
  · split at power
    · contradiction
    · rw [List.cons_append] at power
      rcases List.mem_cons.mp power with letter | exponent
      · exact .inr (.inr (.inl letter))
      · rcases signChars exponent with sign | digit
        · exact .inl sign
        · exact .inr (.inr (.inr digit))

theorem exponentText (n : Numeral) : exponent? n.powerText = some n.exponent := by
  unfold powerText exponent
  split
  · rfl
  · rename_i negative ds _
    have read := signedText exponentValue negative ds
    simpa [exponent?] using read

theorem readText (n : Numeral) : Decimal.read? n.text = some n.decimal := by
  obtain ⟨c, tail, same, digit⟩ := n.whole.head
  have sign : splitSign n.text = (n.negative, n.whole.chars ++ (n.placeText ++ n.powerText)) := by
    unfold text
    rw [List.append_assoc, List.append_assoc]
    exact splitSignText n.negative ⟨c, by simp [same], digit⟩
  have stop : ∀ c ∈ (n.placeText ++ n.powerText).head?, isDigit c = false := by
    intro c member
    rcases n.placeHead c member with rfl | rfl <;> rfl
  have stop' : ∀ c ∈ n.powerText.head?, isDigit c = false := by
    intro c member
    rw [n.powerHead c member]
    rfl
  have whole := takeWhileAppend n.whole.every stop
  have rest := dropWhileAppend n.whole.every stop
  unfold Decimal.read?
  rw [sign]
  dsimp only
  rw [whole, rest]
  cases places : n.places with
  | none =>
    have bare : n.placeText = [] := by simp [placeText, places]
    have none : n.placeDigits = [] := by simp [placeDigits, places]
    rw [bare, List.nil_append]
    have read := n.exponentText
    obtain bare | ⟨cs, marked⟩ := n.powerShape
    · rw [bare] at read ⊢
      simp [n.whole.some, read, decimal, none]
    · rw [marked] at read ⊢
      simp [n.whole.some, read, decimal, none]
  | some ds =>
    have dotted : n.placeText = '.' :: ds.chars := by simp [placeText, places]
    have some : n.placeDigits = ds.chars := by simp [placeDigits, places]
    rw [dotted, List.cons_append]
    simp only
    rw [takeWhileAppend ds.every stop', dropWhileAppend ds.every stop']
    simp [n.whole.some, exponentText, decimal, some]

end Numeral
end SceneStream.Number
