import SceneStream.Proofs.Number.Layout
import SceneStream.Proofs.Stream.Reads
import SceneStream.Proofs.Stream.Tokens
import SceneStream.Proofs.Text.Utf8

/-! Elements written as text: names, numerals, strings and comments. A name or a number is read to its
end only where what comes after it cannot be part of it. -/
namespace SceneStream.Stream
open Number (Numeral Digits signText takeWhileAppend dropWhileAppend)
open Text.Utf8 (byte encodeAscii encodeAppend encodeChars encodeAsciiChar encodeAsciiChars
  encodeCharLow decodeEncode)

def Closed (rest : Bytes) : Prop := ∀ b ∈ rest.head?, isBlank b = true ∨ b = 93

theorem closedCons {b : UInt8} (closes : isBlank b = true ∨ b = 93) (rest : Bytes) :
    Closed (b :: rest) := by
  intro x head
  cases Option.some.inj head
  exact closes

theorem closedValue {rest : Bytes} (closed : Closed rest) {b : UInt8} (head : b ∈ rest.head?) :
    b.toNat ≤ 13 ∨ b.toNat = 32 ∨ b.toNat = 93 := by
  rcases closed b head with blank | rfl
  · simp only [isBlank, Bool.or_eq_true, beq_iff_eq] at blank
    rcases blank with ((((rfl | rfl) | rfl) | rfl) | rfl) | rfl <;> decide
  · decide

theorem textWhileAppend {p : UInt8 → Bool} {a rest : Bytes} (all : ∀ b ∈ a, p b = true)
    (stop : ∀ b ∈ rest.head?, p b = false) (line : Nat) :
    ∃ line', Cursor.textWhile p ⟨a ++ rest, line⟩ = (a, ⟨rest, line'⟩) := by
  refine ⟨line + newlines a, ?_⟩
  simp only [Cursor.textWhile, takeWhileAppend all stop, dropWhileAppend all stop]

theorem byteValue {c : Char} (low : c.toNat < 0x80) : (byte c).toNat = c.toNat := by
  simp only [byte, UInt8.toNat_ofNat']
  omega

theorem asciiBytes {cs : List Char} (low : ∀ c ∈ cs, c.toNat < 0x80) : ascii (cs.map byte) = cs := by
  unfold ascii
  rw [List.map_map]
  conv => rhs; rw [← List.map_id cs]
  apply List.map_congr_left
  intro c member
  simp only [Function.comp, byteValue (low c member), id]
  exact Char.ofNat_toNat c

/-! Names. -/

theorem letterValue {b : UInt8} (letter : isLetter b = true) :
    65 ≤ b.toNat ∧ b.toNat ≤ 90 ∨ 97 ≤ b.toNat ∧ b.toNat ≤ 122 := by
  simpa [isLetter, UInt8.le_iff_toNat_le] using letter

theorem nameValue {b : UInt8} (first : startsName b = true) :
    65 ≤ b.toNat ∧ b.toNat ≤ 90 ∨ 97 ≤ b.toNat ∧ b.toNat ≤ 122 ∨ b.toNat = 95 := by
  rcases (Bool.or_eq_true _ _).mp first with letter | line
  · have value := letterValue letter
    omega
  · rw [beq_iff_eq.mp line]
    decide

theorem elementName {b : UInt8} (first : startsName b = true) (c : Cursor) :
    elementAt b c = (.token (.name (String.ofList (ascii (b :: (c.textWhile continuesName).1)))),
      (c.textWhile continuesName).2, (c.textWhile continuesName).2.atEnd) := by
  have value := nameValue first
  unfold elementAt
  simp only [first, if_true, startsNumber, isDigit, Bool.or_eq_true, Bool.and_eq_true, beq_iff_eq,
    decide_eq_true_eq, UInt8.le_iff_toNat_le, ← UInt8.toNat_inj, UInt8.reduceToNat]
  rw [if_neg (by omega), if_neg (by omega), if_neg (by omega), if_neg (by omega), if_neg (by omega),
    if_neg (by omega)]

theorem nameLetters (k : RequestKind) : k.name.toList ≠ [] ∧ k.name.toList.length < 64 ∧
    ∀ c ∈ k.name.toList, c.toNat < 0x80 ∧ isLetter (byte c) = true := by
  have checked : ∀ k ∈ RequestKind.all, (!k.name.toList.isEmpty && (k.name.toList.length < 64 &&
      k.name.toList.all fun c => c.toNat < 0x80 && isLetter (byte c))) = true := by
    decide +kernel
  simpa using checked k (RequestKind.memAll k)

theorem nameBytes (k : RequestKind) : bytesOf k.name = k.name.toList.map byte :=
  encodeAscii fun c member => ((nameLetters k).2.2 c member).1

theorem nameSpells (k : RequestKind) {rest : Bytes} (closed : Closed rest) :
    Spells (bytesOf k.name) rest (.token (.name k.name)) := by
  obtain ⟨some, -, letters⟩ := nameLetters k
  have bytes := nameBytes k
  have chars := asciiBytes fun c member => (letters c member).1
  cases same : k.name.toList with
  | nil => exact absurd same some
  | cons c cs =>
    rw [same] at bytes letters chars
    have letter := (letters c (by simp)).2
    have first := letterValue letter
    rw [bytes, List.map_cons]
    refine spellsElement ?_ fun line => ?_
    · simp only [isBlank, Bool.or_eq_false_iff, beq_eq_false_iff_ne, ne_eq, ← UInt8.toNat_inj,
        UInt8.reduceToNat]
      omega
    · have all : ∀ b ∈ cs.map byte, continuesName b = true := by
        intro b member
        obtain ⟨d, inside, rfl⟩ := List.mem_map.mp member
        simp [continuesName, (letters d (by simp [inside])).2]
      have stop : ∀ b ∈ rest.head?, continuesName b = false := by
        intro b head
        have value := closedValue closed head
        simp [continuesName, isLetter, isDigit, UInt8.le_iff_toNat_le, ← UInt8.toNat_inj]
        omega
      obtain ⟨after, text⟩ := textWhileAppend all stop line
      refine ⟨after, (Cursor.mk rest after).atEnd, ?_⟩
      rw [elementName (by simp [startsName, letter]), text]
      dsimp only
      rw [← List.map_cons, chars, ← same, String.ofList_toList]

/-! Numbers. -/

theorem digitValue {c : Char} (digit : Number.isDigit c = true) :
    48 ≤ c.toNat ∧ c.toNat ≤ 57 := by
  simpa [Number.isDigit, Char.le_def, UInt32.le_iff_toNat_le] using digit

theorem digitByte {c : Char} (digit : Number.isDigit c = true) : isDigit (byte c) = true := by
  have value := digitValue digit
  have same := byteValue (c := c) (by omega)
  simp only [isDigit, UInt8.le_iff_toNat_le, same, UInt8.reduceToNat, value, decide_true, Bool.and_self]

theorem digitsBytes (ds : Digits) : ∀ b ∈ ds.chars.map byte, isDigit b = true := by
  intro b member
  obtain ⟨c, inside, rfl⟩ := List.mem_map.mp member
  exact digitByte (ds.every c inside)

theorem notDigit {b : UInt8} (other : b.toNat < 48 ∨ 57 < b.toNat) : isDigit b = false := by
  simp [isDigit, UInt8.le_iff_toNat_le]
  omega

theorem headMap {cs : List Char} {rest : Bytes} {b : UInt8} (head : b ∈ (cs.map byte ++ rest).head?) :
    (∃ c ∈ cs.head?, b = byte c) ∨ b ∈ rest.head? := by
  cases cs with
  | nil => exact .inr head
  | cons c cs => exact .inl ⟨c, rfl, (Option.some.inj head).symm⟩

theorem placesNone {c : Cursor} (other : ∀ b ∈ c.rest.head?, b ≠ 46) : places c = ([], c) := by
  unfold places
  split
  · rename_i rest point
    exact absurd rfl (other 46 (by simp [point]))
  · rfl

theorem powerNone {c : Cursor} (other : ∀ b ∈ c.rest.head?, b ≠ 101 ∧ b ≠ 69) :
    power c = ([], c) := by
  unfold power
  split
  · rename_i e rest letter
    obtain ⟨lower, upper⟩ := other e (by simp [letter])
    rw [if_neg (by simp [lower, upper])]
  · rfl

theorem placesDigits {ds rest tail : Bytes} {line line' : Nat}
    (text : Cursor.textWhile isDigit ⟨rest, line⟩ = (ds, ⟨tail, line'⟩)) :
    places ⟨46 :: rest, line⟩ = (46 :: ds, ⟨tail, line'⟩) := by
  simp only [places, text]

theorem powerSigned {e s : UInt8} {ds rest tail : Bytes} {line line' : Nat} (letter : e = 101 ∨ e = 69)
    (sign : s = 43 ∨ s = 45)
    (text : Cursor.textWhile isDigit ⟨rest, line⟩ = (ds, ⟨tail, line'⟩)) :
    power ⟨e :: s :: rest, line⟩ = (e :: s :: ds, ⟨tail, line'⟩) := by
  unfold power
  simp [letter, sign, text]

theorem powerPlain {e : UInt8} {ds rest tail : Bytes} {line line' : Nat} (letter : e = 101 ∨ e = 69)
    (unsigned : ∀ s ∈ rest.head?, s ≠ 43 ∧ s ≠ 45)
    (text : Cursor.textWhile isDigit ⟨rest, line⟩ = (ds, ⟨tail, line'⟩)) :
    power ⟨e :: rest, line⟩ = (e :: ds, ⟨tail, line'⟩) := by
  unfold power
  cases rest with
  | nil => simp [letter, text]
  | cons s rest =>
    obtain ⟨plus, minus⟩ := unsigned s rfl
    simp [letter, plus, minus, text]

theorem placesNumeral (m : Numeral) {rest : Bytes} (closed : Closed rest) (line : Nat) :
    ∃ line', places ⟨m.placeText.map byte ++ (m.powerText.map byte ++ rest), line⟩ =
      (m.placeText.map byte, ⟨m.powerText.map byte ++ rest, line'⟩) := by
  have head : ∀ b ∈ (m.powerText.map byte ++ rest).head?, b.toNat = 101 ∨ b.toNat ≤ 13 ∨
      b.toNat = 32 ∨ b.toNat = 93 := by
    intro b first
    rcases headMap first with ⟨c, letter, rfl⟩ | after
    · rw [m.powerHead c letter]
      exact .inl rfl
    · exact .inr (closedValue closed after)
  unfold Numeral.placeText
  split
  · refine ⟨line, placesNone fun b first => ?_⟩
    have value := head b first
    simp only [Ne, ← UInt8.toNat_inj, UInt8.reduceToNat]
    omega
  · rename_i ds _
    have stop : ∀ b ∈ (m.powerText.map byte ++ rest).head?, isDigit b = false := by
      intro b first
      exact notDigit (by have := head b first; omega)
    obtain ⟨after, text⟩ := textWhileAppend (digitsBytes ds) stop line
    exact ⟨after, placesDigits text⟩

theorem powerNumeral (m : Numeral) {rest : Bytes} (closed : Closed rest) (line : Nat) :
    ∃ line', power ⟨m.powerText.map byte ++ rest, line⟩ = (m.powerText.map byte, ⟨rest, line'⟩) := by
  unfold Numeral.powerText
  split
  · refine ⟨line, powerNone fun b first => ?_⟩
    have value := closedValue closed first
    simp only [Ne, ← UInt8.toNat_inj, UInt8.reduceToNat]
    omega
  · rename_i negative ds _
    have stop : ∀ b ∈ rest.head?, isDigit b = false := by
      intro b first
      exact notDigit (by have := closedValue closed first; omega)
    obtain ⟨after, text⟩ := textWhileAppend (digitsBytes ds) stop line
    refine ⟨after, ?_⟩
    cases negative with
    | true => exact powerSigned (.inl rfl) (.inr rfl) text
    | false =>
      refine powerPlain (.inl rfl) (fun s head => ?_) text
      obtain ⟨c, tail, same, digit⟩ := ds.head
      have value := digitValue digit
      rw [same] at head
      cases Option.some.inj head
      simp only [Ne, ← UInt8.toNat_inj, byteValue (c := c) (by omega), UInt8.reduceToNat]
      omega

theorem signBytes (negative : Bool) (ds : Digits) : ∃ b tail,
    (signText negative ++ ds.chars).map byte = b :: tail ∧ (b = 45 ∨ isDigit b = true) ∧
      ∀ x ∈ tail, isDigit x = true := by
  obtain ⟨c, tail, same, digit⟩ := ds.head
  have digits := digitsBytes ds
  cases negative with
  | true => exact ⟨45, ds.chars.map byte, rfl, .inl rfl, digits⟩
  | false =>
    rw [same] at digits
    refine ⟨byte c, tail.map byte, by simp [signText, same], .inr (digitByte digit), ?_⟩
    exact fun x member => digits x (by simp [List.mem_map.mp member])

theorem numberTextNumeral (m : Numeral) {rest : Bytes} (closed : Closed rest) :
    ∃ b tail, m.text.map byte = b :: tail ∧ (b = 45 ∨ isDigit b = true) ∧
      ∀ line, ∃ line', numberText b ⟨tail ++ rest, line⟩ = (m.text.map byte, ⟨rest, line'⟩) := by
  obtain ⟨b, digits, same, first, all⟩ := signBytes m.negative m.whole
  have whole : m.text.map byte = b :: (digits ++ (m.placeText.map byte ++ m.powerText.map byte)) := by
    unfold Numeral.text
    rw [List.map_append, List.map_append, same, List.append_assoc, List.cons_append]
  refine ⟨b, digits ++ (m.placeText.map byte ++ m.powerText.map byte), whole, first, fun line => ?_⟩
  have stop : ∀ x ∈ (m.placeText.map byte ++ (m.powerText.map byte ++ rest)).head?,
      isDigit x = false := by
    intro x head
    rw [← List.append_assoc, ← List.map_append] at head
    rcases headMap head with ⟨c, mark, rfl⟩ | after
    · rcases m.placeHead c mark with rfl | rfl <;> rfl
    · exact notDigit (by have := closedValue closed after; omega)
  obtain ⟨line₁, text⟩ := textWhileAppend all stop line
  obtain ⟨line₂, places⟩ := placesNumeral m closed line₁
  obtain ⟨line₃, power⟩ := powerNumeral m closed line₂
  have digit : ¬ ((b == 46) = true) := by
    rcases first with rfl | digit
    · decide
    · intro point
      rw [beq_iff_eq.mp point] at digit
      contradiction
  refine ⟨line₃, ?_⟩
  unfold numberText
  rw [List.append_assoc, List.append_assoc, text]
  dsimp only
  rw [if_neg digit, places]
  dsimp only
  rw [power, whole]
  simp only [List.cons_append, List.append_assoc]

theorem numberValue {b : UInt8} (first : startsNumber b = true) :
    b.toNat = 45 ∨ b.toNat = 43 ∨ 48 ≤ b.toNat ∧ b.toNat ≤ 57 ∨ b.toNat = 46 := by
  simp only [startsNumber, isDigit, Bool.or_eq_true, Bool.and_eq_true, beq_iff_eq, decide_eq_true_eq,
    UInt8.le_iff_toNat_le, ← UInt8.toNat_inj, UInt8.reduceToNat] at first
  omega

theorem elementNumber {b : UInt8} (first : startsNumber b = true) (c : Cursor) :
    elementAt b c = (number (ascii (numberText b c).1), (numberText b c).2, (numberText b c).2.atEnd) := by
  have value := numberValue first
  unfold elementAt
  simp only [first, if_true, beq_iff_eq, UInt8.le_iff_toNat_le, ← UInt8.toNat_inj,
    UInt8.reduceToNat]
  rw [if_neg (by omega), if_neg (by omega), if_neg (by omega), if_neg (by omega), if_neg (by omega)]

theorem numeralAscii (m : Numeral) : ∀ c ∈ m.text, c.toNat < 0x80 := by
  intro c member
  rcases m.textChars member with rfl | rfl | rfl | digit
  · decide
  · decide
  · decide
  · have := digitValue digit
    omega

theorem numeralSpells (m : Numeral) {rest : Bytes} (closed : Closed rest) :
    Spells (m.text.map byte) rest (number m.text) := by
  obtain ⟨b, tail, same, first, text⟩ := numberTextNumeral m closed
  rw [same]
  refine spellsElement ?_ fun line => ?_
  · rcases first with rfl | digit
    · rfl
    · simp only [isDigit, Bool.and_eq_true, decide_eq_true_eq, UInt8.le_iff_toNat_le,
        UInt8.reduceToNat] at digit
      simp only [isBlank, Bool.or_eq_false_iff, beq_eq_false_iff_ne, ne_eq, ← UInt8.toNat_inj,
        UInt8.reduceToNat]
      omega
  · obtain ⟨after, text⟩ := text line
    refine ⟨after, (Cursor.mk rest after).atEnd, ?_⟩
    have starts : startsNumber b = true := by
      rcases first with rfl | digit
      · rfl
      · simp [startsNumber, digit]
    rw [elementNumber starts, text]
    dsimp only
    rw [asciiBytes (numeralAscii m)]

theorem numberFractional {m : Numeral} (fractional : m.Fractional) :
    number m.text = .token (.float m.decimal.toSingle) := by
  have marked : isFloatText m.text = true := by
    unfold isFloatText
    rw [List.any_eq_true]
    rcases fractional with point | letter
    · obtain ⟨ds, same⟩ := Option.isSome_iff_exists.mp point
      exact ⟨'.', by simp [Numeral.text, Numeral.placeText, same], rfl⟩
    · obtain ⟨⟨negative, ds⟩, same⟩ := Option.isSome_iff_exists.mp letter
      exact ⟨'e', by simp [Numeral.text, Numeral.powerText, same], rfl⟩
  unfold number
  rw [if_pos marked, m.readText]

theorem numberInteger (n : Int32) : number (toString n.toInt).toList = .token (.integer n) := by
  have text := Number.intText n.toInt
  have whole : isFloatText (toString n.toInt).toList = false := by
    unfold isFloatText
    rw [List.any_eq_false, text]
    intro c member
    rcases Numeral.signChars member with rfl | digit
    · decide
    · have value := digitValue digit
      simp only [Bool.or_eq_true, beq_iff_eq, ← Char.toNat_inj, Char.reduceToNat]
      omega
  have read : Number.integer? (toString n.toInt).toList = some n.toInt := by
    unfold Number.integer?
    rw [text, Number.signedText]
    simp only [Digits.ofNat, Number.digitsValueNat, decide_eq_true_eq]
    split <;> (congr 1; omega)
  unfold number
  simp only [whole, read, Bool.false_eq_true, if_false, Option.filter, n.minValue_le_toInt, n.toInt_le,
    decide_true, Bool.and_self, if_true, Int32.ofInt_toInt]

theorem integerSpells (n : Int32) {rest : Bytes} (closed : Closed rest) :
    Spells (bytesOf (toString n.toInt)) rest (.token (.integer n)) := by
  have spells := numeralSpells ⟨n.toInt < 0, .ofNat n.toInt.natAbs, none, none⟩ closed
  have text : Numeral.text ⟨n.toInt < 0, .ofNat n.toInt.natAbs, none, none⟩ =
      (toString n.toInt).toList := by
    rw [Number.intText]
    simp [Numeral.text, Numeral.placeText, Numeral.powerText]
  have ascii := numeralAscii ⟨n.toInt < 0, .ofNat n.toInt.natAbs, none, none⟩
  rw [text] at spells ascii
  rw [numberInteger] at spells
  rw [bytesOf, encodeAscii ascii]
  exact spells

theorem floatSpells {x : Single} (finite : x.isFinite = true) {rest : Bytes} (closed : Closed rest) :
    Spells (bytesOf (floatText x)) rest (.token (.float x)) := by
  obtain ⟨m, text, fractional, reads⟩ := Single.streamTextReads finite
  have spells := numeralSpells m closed
  rw [numberFractional fractional, reads] at spells
  rw [bytesOf, floatText, if_pos finite, encodeAscii (text ▸ numeralAscii m), text]
  exact spells

/-! Strings. -/

theorem octalDigit : ∀ d < 8, byte (Nat.digitChar d) ≠ newline ∧ isOctal (byte (Nat.digitChar d)) = true ∧
    (byte (Nat.digitChar d)).toNat - 48 = d := by decide

theorem stringBodyMore {inside inside' : Inside} {done done' : Bytes} {b : UInt8}
    (more : stringStep inside done b = .more inside' done') (line : Nat) (tail : Bytes) :
    ∃ line', stringBody inside done line (b :: tail) = stringBody inside' done' line' tail := by
  refine ⟨if b == newline then line + 1 else line, ?_⟩
  conv => lhs; unfold stringBody
  simp only [more]

theorem stringBodyPlain {bytes : Bytes} (plain : ∀ b ∈ bytes, b ≠ 34 ∧ b ≠ 92) (done : Bytes)
    (line : Nat) (tail : Bytes) : ∃ line', stringBody .plain done line (bytes ++ tail) =
      stringBody .plain (bytes.reverse ++ done) line' tail := by
  induction bytes generalizing done line with
  | nil => exact ⟨line, rfl⟩
  | cons b bytes ih =>
    obtain ⟨quote, escape⟩ := plain b (by simp)
    have more : stringStep .plain done b = .more .plain (b :: done) := by
      simp [stringStep, plainStep, quote, escape]
    obtain ⟨line₁, first⟩ := stringBodyMore more line (bytes ++ tail)
    obtain ⟨line₂, others⟩ := ih (fun x member => plain x (by simp [member])) (b :: done) line₁
    refine ⟨line₂, ?_⟩
    rw [List.cons_append, first, others, List.reverse_cons, List.append_assoc, List.singleton_append]

theorem stringBodyEscape {b c : UInt8} (letter : b ≠ newline ∧ isOctal b = false)
    (stands : escapeByte b = c) (done : Bytes) (line : Nat) (tail : Bytes) :
    ∃ line', stringBody .plain done line (92 :: b :: tail) =
      stringBody .plain (c :: done) line' tail := by
  have escaped : stringStep .escape done b = .more .plain (c :: done) := by
    simp [stringStep, letter.1, letter.2, stands]
  have opens : stringStep .plain done 92 = .more .escape done := rfl
  obtain ⟨line₁, first⟩ := stringBodyMore opens line (b :: tail)
  obtain ⟨line₂, second⟩ := stringBodyMore escaped line₁ tail
  exact ⟨line₂, first.trans second⟩

theorem stringBodyOctal {n : Nat} (small : n < 0x80) (done : Bytes) (line : Nat) (tail : Bytes) :
    ∃ line', stringBody .plain done line ((escapeOctal n).map byte ++ tail) =
      stringBody .plain (UInt8.ofNat n :: done) line' tail := by
  obtain ⟨visible₁, octal₁, value₁⟩ := octalDigit (n / 64 % 8) (Nat.mod_lt _ (by decide))
  obtain ⟨visible₂, octal₂, value₂⟩ := octalDigit (n / 8 % 8) (Nat.mod_lt _ (by decide))
  obtain ⟨visible₃, octal₃, value₃⟩ := octalDigit (n % 8) (Nat.mod_lt _ (by decide))
  have value : (n / 64 % 8 * 8 + n / 8 % 8) * 8 + n % 8 = n := by omega
  have step₁ : stringStep .escape done (byte (Nat.digitChar (n / 64 % 8))) =
      .more (.octal (n / 64 % 8) true) done := by
    simp [stringStep, visible₁, octal₁, value₁]
  have step₂ : stringStep (.octal (n / 64 % 8) true) done (byte (Nat.digitChar (n / 8 % 8))) =
      .more (.octal (n / 64 % 8 * 8 + n / 8 % 8) false) done := by
    simp [stringStep, octal₂, value₂]
  have step₃ : stringStep (.octal (n / 64 % 8 * 8 + n / 8 % 8) false) done
      (byte (Nat.digitChar (n % 8))) = .more .plain (UInt8.ofNat n :: done) := by
    simp [stringStep, octal₃, value₃, value]
  have opens : stringStep .plain done 92 = .more .escape done := rfl
  obtain ⟨line₀, read₀⟩ := stringBodyMore opens line
    (byte (Nat.digitChar (n / 64 % 8)) :: byte (Nat.digitChar (n / 8 % 8)) ::
      byte (Nat.digitChar (n % 8)) :: tail)
  obtain ⟨line₁, read₁⟩ := stringBodyMore step₁ line₀ (byte (Nat.digitChar (n / 8 % 8)) ::
    byte (Nat.digitChar (n % 8)) :: tail)
  obtain ⟨line₂, read₂⟩ := stringBodyMore step₂ line₁ (byte (Nat.digitChar (n % 8)) :: tail)
  obtain ⟨line₃, read₃⟩ := stringBodyMore step₃ line₂ tail
  exact ⟨line₃, ((read₀.trans read₁).trans read₂).trans read₃⟩

theorem escapeOctalAscii (n : Nat) : ∀ c ∈ escapeOctal n, c.toNat < 0x80 := by
  have low : ∀ d < 8, (Nat.digitChar d).toNat < 0x80 := by decide
  intro c member
  simp only [escapeOctal, List.mem_cons, List.not_mem_nil, or_false] at member
  rcases member with rfl | rfl | rfl | rfl
  · decide
  · exact low _ (Nat.mod_lt _ (by decide))
  · exact low _ (Nat.mod_lt _ (by decide))
  · exact low _ (Nat.mod_lt _ (by decide))

theorem stringBodyChar (c : Char) (done : Bytes) (line : Nat) (tail : Bytes) :
    ∃ line', stringBody .plain done line ((escapeChar c).flatMap String.utf8EncodeChar ++ tail) =
      stringBody .plain ((String.utf8EncodeChar c).reverse ++ done) line' tail := by
  unfold escapeChar
  by_cases quote : c = '"'
  · subst quote
    exact stringBodyEscape (by decide) rfl done line tail
  by_cases slash : c = '\\'
  · subst slash
    exact stringBodyEscape (by decide) rfl done line tail
  by_cases feed : c = '\n'
  · subst feed
    exact stringBodyEscape (by decide) rfl done line tail
  by_cases carriage : c = '\r'
  · subst carriage
    exact stringBodyEscape (by decide) rfl done line tail
  by_cases tab : c = '\t'
  · subst tab
    exact stringBodyEscape (by decide) rfl done line tail
  simp only [beq_iff_eq, quote, slash, feed, carriage, tab, if_false, Bool.or_eq_true, decide_eq_true_eq]
  by_cases control : c.toNat < 0x20 ∨ c.toNat = 0x7f
  · rw [if_pos control, encodeAsciiChars (escapeOctalAscii c.toNat), encodeAsciiChar (by omega)]
    exact stringBodyOctal (by omega) done line tail
  · rw [if_neg control, List.flatMap_singleton]
    refine stringBodyPlain (fun b member => ?_) done line tail
    constructor
    · rintro rfl
      exact quote (Char.toNat_inj.mp (encodeCharLow member (by decide)))
    · rintro rfl
      exact slash (Char.toNat_inj.mp (encodeCharLow member (by decide)))

theorem stringBodyChars (cs : List Char) (done : Bytes) (line : Nat) (rest : Bytes) :
    ∃ line', stringBody .plain done line
      ((cs.flatMap escapeChar).flatMap String.utf8EncodeChar ++ 34 :: rest) =
        (some (done.reverse ++ cs.flatMap String.utf8EncodeChar), ⟨rest, line'⟩) := by
  induction cs generalizing done line with
  | nil => exact ⟨line, by simp [stringBody, stringStep, plainStep, newline]⟩
  | cons c cs ih =>
    obtain ⟨line₁, first⟩ := stringBodyChar c done line
      ((cs.flatMap escapeChar).flatMap String.utf8EncodeChar ++ 34 :: rest)
    obtain ⟨line₂, others⟩ := ih ((String.utf8EncodeChar c).reverse ++ done) line₁
    refine ⟨line₂, ?_⟩
    rw [List.flatMap_cons, List.flatMap_append, List.append_assoc, first, others]
    simp

theorem quoteSpells (s : String) (rest : Bytes) :
    Spells (bytesOf (quote s)) rest (.token (.string s)) := by
  have bytes : bytesOf (quote s) =
      34 :: ((s.toList.flatMap escapeChar).flatMap String.utf8EncodeChar ++ [34]) := by
    rw [bytesOf, quote, encodeChars, List.flatMap_append, List.flatMap_cons]
    rfl
  rw [bytes]
  refine spellsElement rfl fun line => ?_
  obtain ⟨after, body⟩ := stringBodyChars s.toList [] line rest
  refine ⟨after, false, ?_⟩
  rw [List.append_assoc]
  unfold elementAt
  dsimp only
  rw [if_neg (by decide), if_neg (by decide), if_neg (by decide), if_neg (by decide),
    if_pos (by decide), List.singleton_append, body]
  exact congrArg (fun text => (Element.token (.string text), (⟨rest, after⟩ : Cursor), false))
    (decodeEncode s)

/-! Comments. -/

theorem withoutReturnKept {s : String} (noReturn : s.toList.getLast? ≠ some '\r') :
    withoutReturn s = s := by
  unfold withoutReturn
  split
  · rename_i rest same
    have := congrArg List.head? same
    rw [List.head?_reverse] at this
    exact absurd this noReturn
  · rfl

theorem lowByte {s : String} {c : Char} (low : c.toNat < 0x80) (absent : c ∉ s.toList) :
    byte c ∉ bytesOf s := by
  intro member
  obtain ⟨d, inside, encoded⟩ := List.mem_flatMap.mp member
  have value := byteValue low
  have same := encodeCharLow encoded (by omega)
  rw [Char.toNat_inj.mp (same.trans value)] at inside
  exact absent inside

theorem commentBodySpells {c : Comment} (whole : CommentWhole c) (rest : Bytes) (line : Nat) :
    ∃ line', commentBody c.structured ⟨bytesOf c.text ++ newline :: rest, line⟩ =
      (.token (.comment (withoutReturn c.text) c.structured), ⟨rest, line'⟩, false) := by
  have all : ∀ b ∈ bytesOf c.text, (b != newline) = true := by
    intro b member
    rw [bne_iff_ne]
    rintro rfl
    exact lowByte (by decide) whole.oneLine member
  have stop : ∀ b ∈ (newline :: rest).head?, (b != newline) = false := by simp
  obtain ⟨after, text⟩ := textWhileAppend all stop line
  refine ⟨after + 1, ?_⟩
  unfold commentBody
  rw [text]
  simp only [Cursor.textByte?, beq_self_eq_true, if_true, bytesOf, decodeEncode]

theorem headByte {s : String} {c : Char} {rest : Bytes} (low : c.toNat < 0x80)
    (absent : s.toList.head? ≠ some c) (other : byte c ∉ rest.head?) :
    byte c ∉ (bytesOf s ++ rest).head? := by
  unfold bytesOf Text.Utf8.encode
  cases same : s.toList with
  | nil => exact other
  | cons d ds =>
    intro head
    have inside : byte c ∈ String.utf8EncodeChar d := by
      cases bytes : String.utf8EncodeChar d with
      | nil => exact absurd bytes (by simp)
      | cons b bs =>
        rw [List.flatMap_cons, bytes] at head
        exact Option.some.inj head ▸ List.mem_cons_self
    have value := byteValue low
    have first := encodeCharLow inside (by omega)
    rw [same, Char.toNat_inj.mp (first.trans value)] at absent
    exact absent rfl

theorem commentMarksWritten {c : Comment} (whole : CommentWhole c) (rest : Bytes) (line : Nat) :
    commentMarks ⟨(if c.structured then [35] else []) ++ bytesOf c.text ++ newline :: rest, line⟩ =
      (c.structured, ⟨bytesOf c.text ++ newline :: rest, line⟩) := by
  cases structured : c.structured with
  | true => rfl
  | false =>
    have other : byte '#' ∉ (bytesOf c.text ++ newline :: rest).head? :=
      headByte (by decide) (whole.unmarked structured) fun head =>
        absurd (Option.some.inj head) (by decide)
    unfold commentMarks
    simp only [Bool.false_eq_true, if_false, List.nil_append]
    split
    · rename_i tail point
      exact absurd (by rw [point]; rfl) other
    · rfl

theorem commentSpells {c : Comment} (whole : CommentWhole c) (rest : Bytes) :
    Spells (bytesOf (commentText c)) rest
      (.token (.comment (withoutReturn c.text) c.structured)) := by
  have bytes : bytesOf (commentText c) =
      35 :: ((if c.structured then [35] else []) ++ bytesOf c.text ++ [newline]) := by
    unfold commentText bytesOf
    rw [encodeAppend, encodeAppend]
    cases c.structured <;> rfl
  rw [bytes]
  refine spellsElement rfl fun line => ?_
  obtain ⟨after, body⟩ := commentBodySpells whole rest line
  refine ⟨after, false, ?_⟩
  unfold elementAt
  rw [if_neg (by decide), if_neg (by decide), if_neg (by decide), if_pos (by decide), commentMarked,
    List.append_assoc, List.singleton_append, commentMarksWritten whole, body]

end SceneStream.Stream
