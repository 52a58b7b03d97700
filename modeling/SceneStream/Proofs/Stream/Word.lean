import SceneStream.Proofs.Stream.Packed
import SceneStream.Proofs.Stream.Plain

/-! Words: elements spelled out whole, each kind by a rule of its own. A word is read as its element whatever
comes after it, if only a name or a number is set apart from what follows. -/
namespace SceneStream.Stream

/-- Codes that stand for nothing. -/
def isReserved (b : UInt8) : Bool := (0xa7 ≤ b && b < 0xc8) || 0xd1 ≤ b

def isSpacing (b : UInt8) : Bool := isBlank b || isReserved b

namespace Spelling

inductive Places : Bytes → Prop where
  | none : Places []
  | point {ds : Bytes} (digits : ∀ d ∈ ds, isDigit d = true) : Places (46 :: ds)

inductive Power : Bytes → Prop where
  | none : Power []
  | plain {e : UInt8} {ds : Bytes} (letter : e = 101 ∨ e = 69) (digits : ∀ d ∈ ds, isDigit d = true) :
      Power (e :: ds)
  | signed {e s : UInt8} {ds : Bytes} (letter : e = 101 ∨ e = 69) (sign : s = 43 ∨ s = 45)
      (digits : ∀ d ∈ ds, isDigit d = true) : Power (e :: s :: ds)

/-- Some of these mean no number, as a sign alone. -/
inductive Numeral : Bytes → Prop where
  | whole {b : UInt8} {ds places power : Bytes} (first : b = 45 ∨ b = 43 ∨ isDigit b = true)
      (digits : ∀ d ∈ ds, isDigit d = true) (fraction : Places places) (exponent : Power power) :
      Numeral (b :: (ds ++ (places ++ power)))
  | fraction {ds power : Bytes} (digits : ∀ d ∈ ds, isDigit d = true) (exponent : Power power) :
      Numeral (46 :: (ds ++ power))

def octal (ds : Bytes) : Nat := ds.foldl (fun n d => n * 8 + (d.toNat - 48)) 0

/-- The inside of a string, and the bytes that it stands for. -/
inductive Quoted : Bytes → Bytes → Prop where
  | nothing : Quoted [] []
  | plain {b : UInt8} {s t : Bytes} (quote : b ≠ 34) (escape : b ≠ 92) (later : Quoted s t) :
      Quoted (b :: s) (b :: t)
  | continued {s t : Bytes} (later : Quoted s t) : Quoted (92 :: newline :: s) t
  | escaped {b : UInt8} {s t : Bytes} (feed : b ≠ newline) (letter : isOctal b = false) (later : Quoted s t) :
      Quoted (92 :: b :: s) (escapeByte b :: t)
  /-- Fewer than three digits end where no other follows. -/
  | octal {ds s t : Bytes} (digits : ∀ d ∈ ds, isOctal d = true) (some : ds ≠ []) (few : ds.length ≤ 3)
      (ends : ds.length = 3 ∨ ∀ b ∈ s.head?, isOctal b = false) (later : Quoted s t) :
      Quoted (92 :: (ds ++ s)) (UInt8.ofNat (octal ds) :: t)

/-- An opcode, its payload, and what they stand for. -/
inductive Packed (op : UInt8) : Bytes → Element → Prop where
  | fixed {k : Nat} {bytes : Bytes} (code : op.toNat = 0x80 + k) (few : k < 16) (size : bytes.length = k % 4 + 1) :
      Packed op bytes (fixedPoint (k / 4) bytes)
  | short {k : Nat} {bytes : Bytes} (code : op.toNat = 0x90 + k) (few : k < 16) (size : bytes.length = k) :
      Packed op bytes (stringElement bytes)
  | long {k : Nat} {count bytes : Bytes} (code : op.toNat = 0xa0 + k) (few : k < 4) (width : count.length = k + 1)
      (size : bytes.length = bigEndian count) : Packed op (count ++ bytes) (stringElement bytes)
  | single {bytes : Bytes} (code : op = 0xa4) (size : bytes.length = 4) :
      Packed op bytes (.token (.float ((singles bytes).headD .zero)))
  | double {bytes : Bytes} (code : op = 0xa5) (size : bytes.length = 8) : Packed op bytes (doubleElement bytes)
  | floats {k : Nat} {count bytes : Bytes} (code : op.toNat = 0xc8 + k) (few : k < 4)
      (width : count.length = k + 1) (size : bytes.length = bigEndian count * 4) :
      Packed op (count ++ bytes) (.token (.floats (singles bytes)))
  | defineRequest {bytes : Bytes} (code : op = 0xcc) (size : bytes.length = 1) :
      Packed op bytes (.define (requestSlot bytes))
  | recallRequest {bytes : Bytes} (code : op = 0xa6) (size : bytes.length = 1) :
      Packed op bytes (.recall (requestSlot bytes))
  | defineString {bytes : Bytes} (code : op = 0xcd ∧ bytes.length = 1 ∨ op = 0xce ∧ bytes.length = 2) :
      Packed op bytes (.define (stringSlot bytes))
  | recallString {bytes : Bytes} (code : op = 0xcf ∧ bytes.length = 1 ∨ op = 0xd0 ∧ bytes.length = 2) :
      Packed op bytes (.recall (stringSlot bytes))

end Spelling
open Spelling

/-- The words, and the element that each is. -/
inductive Spelled : Bytes → Element → Prop where
  | opening : Spelled [91] (.token .opening)
  | closing : Spelled [93] (.token .closing)
  | name {b : UInt8} {tail : Bytes} (first : startsName b = true) (more : ∀ x ∈ tail, continuesName x = true) :
      Spelled (b :: tail) (.token (.name (String.ofList (ascii (b :: tail)))))
  | number {text : Bytes} (numeral : Numeral text) : Spelled text (number (ascii text))
  | quoted {s t : Bytes} (inside : Quoted s t) : Spelled (34 :: (s ++ [34])) (stringElement t)
  | comment {text : Bytes} (line : newline ∉ text) (unmarked : text.head? ≠ some 35) :
      Spelled (35 :: (text ++ [newline])) (.token (.comment (withoutReturn (Text.Utf8.decode text)) false))
  | structured {text : Bytes} (line : newline ∉ text) :
      Spelled (35 :: 35 :: (text ++ [newline])) (.token (.comment (withoutReturn (Text.Utf8.decode text)) true))
  | packed {op : UInt8} {bytes : Bytes} {e : Element} (payload : Packed op bytes e) : Spelled (op :: bytes) e
  | stray {b : UInt8} (low : b < 0x80) (visible : isBlank b = false) (mark : b ∉ [91, 93, 35, 34])
      (number : startsNumber b = false) (name : startsName b = false) :
      Spelled [b] (.fault (.unexpected (Char.ofNat b.toNat)))

/-- Names and numbers go on as long as they can. -/
def isLoose (word : Bytes) : Bool := word.head?.any fun b => startsName b || startsNumber b

def Apart (rest : Bytes) : Prop := ∀ b ∈ rest.head?, isSpacing b = true

variable {rest : Bytes}

theorem spacingValue {b : UInt8} (spacing : isSpacing b = true) : b.toNat ≤ 13 ∨ b.toNat = 32 ∨ 0xa7 ≤ b.toNat := by
  simp only [isSpacing, isBlank, isReserved, Bool.or_eq_true, Bool.and_eq_true, beq_iff_eq, decide_eq_true_eq,
    UInt8.le_iff_toNat_le, UInt8.lt_iff_toNat_lt, ← UInt8.toNat_inj, UInt8.reduceToNat] at spacing
  omega

theorem apartValue (apart : Apart rest) {b : UInt8} (head : b ∈ rest.head?) :
    b.toNat ≤ 13 ∨ b.toNat = 32 ∨ 0xa7 ≤ b.toNat := spacingValue (apart b head)

/-! Numbers. -/

theorem apartDigit (apart : Apart rest) : ∀ b ∈ rest.head?, isDigit b = false :=
  fun _ head => notDigit (by have := apartValue apart head; omega)

theorem digitsHead {ds : Bytes} (digits : ∀ d ∈ ds, isDigit d = true) {b : UInt8} (head : b ∈ (ds ++ rest).head?) :
    isDigit b = true ∨ b ∈ rest.head? := by
  cases ds with
  | nil => exact .inr head
  | cons d ds => exact .inl (Option.some.inj head ▸ digits d List.mem_cons_self)

theorem digitRange {b : UInt8} (digit : isDigit b = true) : 48 ≤ b.toNat ∧ b.toNat ≤ 57 := by
  simpa [isDigit, UInt8.le_iff_toNat_le] using digit

theorem powerHead {text : Bytes} (spelled : Power text) {b : UInt8} (head : b ∈ (text ++ rest).head?) :
    b = 101 ∨ b = 69 ∨ b ∈ rest.head? := by
  cases spelled with
  | none => exact .inr (.inr head)
  | plain letter | signed letter =>
    cases Option.some.inj head
    exact letter.elim .inl (.inr ∘ .inl)

theorem powerHeadDigit {text : Bytes} (spelled : Power text) (apart : Apart rest) :
    ∀ b ∈ (text ++ rest).head?, isDigit b = false ∧ b ≠ 46 := by
  intro b head
  have value : b.toNat = 101 ∨ b.toNat = 69 ∨ b.toNat ≤ 13 ∨ b.toNat = 32 ∨ 0xa7 ≤ b.toNat := by
    rcases powerHead spelled head with rfl | rfl | after
    · exact .inl rfl
    · exact .inr (.inl rfl)
    · exact .inr (.inr (apartValue apart after))
  refine ⟨notDigit (by omega), ?_⟩
  simp only [Ne, ← UInt8.toNat_inj, UInt8.reduceToNat]
  omega

theorem powerSpelled {text : Bytes} (spelled : Power text) (apart : Apart rest) (line : Nat) :
    ∃ line', power ⟨text ++ rest, line⟩ = (text, ⟨rest, line'⟩) := by
  cases spelled with
  | none =>
    refine ⟨line, powerNone fun b head => ?_⟩
    have value := apartValue apart head
    simp only [Ne, ← UInt8.toNat_inj, UInt8.reduceToNat]
    omega
  | plain letter digits =>
    obtain ⟨after, text⟩ := textWhileAppend digits (apartDigit apart) line
    refine ⟨after, powerPlain letter (fun s head => ?_) text⟩
    have value : 48 ≤ s.toNat ∧ s.toNat ≤ 57 ∨ s.toNat ≤ 13 ∨ s.toNat = 32 ∨ 0xa7 ≤ s.toNat := by
      rcases digitsHead digits head with digit | after
      · exact .inl (digitRange digit)
      · exact .inr (apartValue apart after)
    simp only [Ne, ← UInt8.toNat_inj, UInt8.reduceToNat]
    omega
  | signed letter sign digits =>
    obtain ⟨after, text⟩ := textWhileAppend digits (apartDigit apart) line
    exact ⟨after, powerSigned letter sign text⟩

theorem placesSpelled {text power : Bytes} (spelled : Places text) (exponent : Power power) (apart : Apart rest)
    (line : Nat) : ∃ line', places ⟨text ++ (power ++ rest), line⟩ = (text, ⟨power ++ rest, line'⟩) := by
  have stop := powerHeadDigit exponent apart
  cases spelled with
  | none => exact ⟨line, placesNone fun b head => (stop b head).2⟩
  | point digits =>
    obtain ⟨after, text⟩ := textWhileAppend digits (fun b head => (stop b head).1) line
    exact ⟨after, placesDigits text⟩

theorem numeralStarts {text : Bytes} (spelled : Numeral text) :
    ∃ b tail, text = b :: tail ∧ startsNumber b = true := by
  cases spelled with
  | whole first =>
    refine ⟨_, _, rfl, ?_⟩
    rcases first with rfl | rfl | digit
    · rfl
    · rfl
    · simp [startsNumber, digit]
  | fraction => exact ⟨_, _, rfl, rfl⟩

theorem numberTextSpelled {b : UInt8} {tail : Bytes} (spelled : Numeral (b :: tail)) (apart : Apart rest) (line : Nat) :
    ∃ line', numberText b ⟨tail ++ rest, line⟩ = (b :: tail, ⟨rest, line'⟩) := by
  cases spelled with
  | @whole _ ds fraction exponent first digits places power =>
    have point : ¬ ((b == 46) = true) := by
      rcases first with rfl | rfl | digit
      · decide
      · decide
      · intro point
        rw [beq_iff_eq.mp point] at digit
        contradiction
    have stop : ∀ x ∈ (fraction ++ (exponent ++ rest)).head?, isDigit x = false := by
      cases places with
      | none => exact fun x head => (powerHeadDigit power apart x head).1
      | point _ =>
        intro x head
        cases Option.some.inj head
        rfl
    obtain ⟨line₁, text⟩ := textWhileAppend digits stop line
    obtain ⟨line₂, places⟩ := placesSpelled places power apart line₁
    obtain ⟨line₃, power⟩ := powerSpelled power apart line₂
    refine ⟨line₃, ?_⟩
    unfold numberText
    rw [List.append_assoc, List.append_assoc, text]
    dsimp only
    rw [if_neg point, places]
    dsimp only
    rw [power]
    simp only [List.cons_append, List.append_assoc]
  | @fraction ds exponent digits power =>
    obtain ⟨line₁, text⟩ := textWhileAppend digits (fun b head => (powerHeadDigit power apart b head).1) line
    obtain ⟨line₂, power⟩ := powerSpelled power apart line₁
    refine ⟨line₂, ?_⟩
    unfold numberText
    rw [List.append_assoc, text]
    dsimp only
    rw [if_pos (by decide)]
    dsimp only
    rw [power]
    simp only [List.cons_append, List.append_nil]

/-! Strings. -/

theorem stringBodyEnds (value : Nat) (more : Bool) {tail : Bytes} (some : tail ≠ [])
    (ends : ∀ b ∈ tail.head?, isOctal b = false) (done : Bytes) (line : Nat) :
    stringBody (.octal value more) done line tail = stringBody .plain (UInt8.ofNat value :: done) line tail := by
  cases tail with
  | nil => exact absurd rfl some
  | cons b tail =>
    have other := ends b rfl
    unfold stringBody
    simp only [stringStep, other, Bool.false_eq_true, if_false]

theorem octalDigits (more : Bool) {ds tail : Bytes} (digits : ∀ d ∈ ds, isOctal d = true)
    (few : ds.length ≤ more.toNat + 1) (ends : ds.length = more.toNat + 1 ∨ ∀ b ∈ tail.head?, isOctal b = false)
    (some : tail ≠ []) (value : Nat) (done : Bytes) (line : Nat) :
    ∃ line', stringBody (.octal value more) done line (ds ++ tail) =
      stringBody .plain (UInt8.ofNat (ds.foldl (fun n d => n * 8 + (d.toNat - 48)) value) :: done) line' tail := by
  induction ds generalizing more value line with
  | nil => exact ⟨line, stringBodyEnds value more some (ends.resolve_left nofun) done line⟩
  | cons d ds ih =>
    have digit := digits d List.mem_cons_self
    cases more with
    | true =>
      have step : stringStep (.octal value true) done d = .more (.octal (value * 8 + (d.toNat - 48)) false) done := by
        simp [stringStep, digit]
      obtain ⟨line₁, read₁⟩ := stringBodyMore step line (ds ++ tail)
      obtain ⟨line₂, read₂⟩ := ih false (fun d mem => digits d (List.mem_cons_of_mem _ mem))
        (Nat.le_of_succ_le_succ few) (ends.imp_left Nat.succ.inj) (value * 8 + (d.toNat - 48)) line₁
      exact ⟨line₂, read₁.trans read₂⟩
    | false =>
      have step : stringStep (.octal value false) done d =
          .more .plain (UInt8.ofNat (value * 8 + (d.toNat - 48)) :: done) := by
        simp [stringStep, digit]
      obtain ⟨line₁, read⟩ := stringBodyMore step line (ds ++ tail)
      obtain rfl : ds = [] := List.eq_nil_of_length_eq_zero (Nat.le_zero.mp (Nat.le_of_succ_le_succ few))
      exact ⟨line₁, read⟩

theorem stringBodyDigits {ds s : Bytes} (digits : ∀ d ∈ ds, isOctal d = true) (some : ds ≠ []) (few : ds.length ≤ 3)
    (ends : ds.length = 3 ∨ ∀ b ∈ s.head?, isOctal b = false) (done rest : Bytes) (line : Nat) :
    ∃ line', stringBody .plain done line (92 :: (ds ++ s) ++ 34 :: rest) =
      stringBody .plain (UInt8.ofNat (octal ds) :: done) line' (s ++ 34 :: rest) := by
  have opens : stringStep .plain done 92 = .more .escape done := rfl
  cases ds with
  | nil => exact absurd rfl some
  | cons a ds =>
    have digit := digits a List.mem_cons_self
    have feed : a ≠ newline := by
      rintro rfl
      contradiction
    have first : stringStep .escape done a = .more (.octal (a.toNat - 48) true) done := by
      simp [stringStep, digit, feed]
    have closes : ds.length = 2 ∨ ∀ b ∈ (s ++ 34 :: rest).head?, isOctal b = false := by
      refine ends.imp Nat.succ.inj fun ends b head => ?_
      cases s with
      | nil =>
        cases Option.some.inj head
        rfl
      | cons c s => exact ends b head
    obtain ⟨line₁, read₁⟩ := stringBodyMore opens line (a :: (ds ++ (s ++ 34 :: rest)))
    obtain ⟨line₂, read₂⟩ := stringBodyMore first line₁ (ds ++ (s ++ 34 :: rest))
    obtain ⟨line₃, read₃⟩ := octalDigits true (fun d mem => digits d (List.mem_cons_of_mem _ mem))
      (Nat.le_of_succ_le_succ few) closes (by simp) (a.toNat - 48) done line₂
    refine ⟨line₃, ?_⟩
    rw [List.cons_append, List.append_assoc, List.cons_append, read₁, read₂, read₃, octal, List.foldl_cons,
      Nat.zero_mul, Nat.zero_add]

theorem stringBodySpelled {s t : Bytes} (inside : Quoted s t) (done rest : Bytes) (line : Nat) :
    ∃ line', stringBody .plain done line (s ++ 34 :: rest) = (some (done.reverse ++ t), ⟨rest, line'⟩) := by
  induction inside generalizing done line with
  | nothing => exact ⟨line, by simp [stringBody, stringStep, plainStep, newline]⟩
  | @plain b s t quote escape _ ih =>
    have more : stringStep .plain done b = .more .plain (b :: done) := by
      simp [stringStep, plainStep, quote, escape]
    obtain ⟨line₁, first⟩ := stringBodyMore more line (s ++ 34 :: rest)
    obtain ⟨line₂, others⟩ := ih (b :: done) line₁
    exact ⟨line₂, by rw [List.cons_append, first, others]; simp⟩
  | @continued s t _ ih =>
    have opens : stringStep .plain done 92 = .more .escape done := rfl
    have joins : stringStep .escape done newline = .more .plain done := rfl
    obtain ⟨line₁, first⟩ := stringBodyMore opens line (newline :: (s ++ 34 :: rest))
    obtain ⟨line₂, second⟩ := stringBodyMore joins line₁ (s ++ 34 :: rest)
    obtain ⟨line₃, others⟩ := ih done line₂
    exact ⟨line₃, first.trans (second.trans others)⟩
  | @escaped b s t feed letter _ ih =>
    obtain ⟨line₁, first⟩ := stringBodyEscape ⟨feed, letter⟩ rfl done line (s ++ 34 :: rest)
    obtain ⟨line₂, others⟩ := ih (escapeByte b :: done) line₁
    exact ⟨line₂, by rw [List.cons_append, List.cons_append, first, others]; simp⟩
  | @octal ds s t digits some few ends _ ih =>
    obtain ⟨line₁, first⟩ := stringBodyDigits digits some few ends done rest line
    obtain ⟨line₂, others⟩ := ih (UInt8.ofNat (octal ds) :: done) line₁
    exact ⟨line₂, by rw [first, others]; simp⟩

theorem quotedSpells {s t : Bytes} (inside : Quoted s t) (rest : Bytes) :
    Spells (34 :: (s ++ [34])) rest (stringElement t) := by
  refine spellsElement rfl fun line => ?_
  obtain ⟨after, body⟩ := stringBodySpelled inside [] rest line
  refine ⟨after, false, ?_⟩
  unfold elementAt
  dsimp only
  rw [if_neg (by decide), if_neg (by decide), if_neg (by decide), if_neg (by decide), if_pos (by decide),
    List.append_assoc, List.singleton_append, body]
  rfl

/-! Comments. -/

theorem commentBodyRead {text : Bytes} (oneLine : newline ∉ text) (structured : Bool) (rest : Bytes) (line : Nat) :
    ∃ line', commentBody structured ⟨text ++ newline :: rest, line⟩ =
      (.token (.comment (withoutReturn (Text.Utf8.decode text)) structured), ⟨rest, line'⟩, false) := by
  have all : ∀ b ∈ text, (b != newline) = true := by
    intro b member
    rw [bne_iff_ne]
    rintro rfl
    exact oneLine member
  have stop : ∀ b ∈ (newline :: rest).head?, (b != newline) = false := by simp
  obtain ⟨after, text⟩ := textWhileAppend all stop line
  refine ⟨after + 1, ?_⟩
  unfold commentBody
  rw [text]
  simp only [Cursor.textByte?, beq_self_eq_true, if_true]

theorem remarkSpells {tail text : Bytes} {structured : Bool} (oneLine : newline ∉ text)
    (marks : ∀ line, commentMarks ⟨tail ++ rest, line⟩ = (structured, ⟨text ++ newline :: rest, line⟩)) :
    Spells (35 :: tail) rest (.token (.comment (withoutReturn (Text.Utf8.decode text)) structured)) := by
  refine spellsElement rfl fun line => ?_
  obtain ⟨after, body⟩ := commentBodyRead oneLine structured rest line
  refine ⟨after, false, ?_⟩
  unfold elementAt
  rw [if_neg (by decide), if_neg (by decide), if_neg (by decide), if_pos (by decide), commentMarked, marks]
  exact body

theorem marksNone {text : Bytes} (unmarked : text.head? ≠ some 35) (rest : Bytes) (line : Nat) :
    commentMarks ⟨text ++ newline :: rest, line⟩ = (false, ⟨text ++ newline :: rest, line⟩) := by
  unfold commentMarks
  split
  · rename_i tail mark
    cases text with
    | nil => cases mark
    | cons b text =>
      cases mark
      exact absurd rfl unmarked
  · rfl

/-! Payloads. -/

theorem binaryFixed {op : UInt8} {k : Nat} (code : op.toNat = 0x80 + k) (few : k < 16) (c : Cursor) :
    binary op c = sized (k % 4 + 1) c (fixedPoint (k / 4)) := by
  unfold binary
  simp only [UInt8.lt_iff_toNat_lt, code, UInt8.reduceToNat]
  rw [if_pos (by omega), Nat.add_sub_cancel_left]

theorem countedRead {width unit : Nat} {count bytes : Bytes} (digits : count.length = width)
    (size : bytes.length = bigEndian count * unit) (make : Bytes → Element) (line : Nat) :
    counted width unit ⟨count ++ bytes ++ rest, line⟩ make = (make bytes, ⟨rest, line⟩, false) := by
  have length := payloadWhole count (bytes ++ rest) line
  rw [digits] at length
  unfold counted
  rw [List.append_assoc, length]
  dsimp only
  rw [sizedWhole size]

theorem packedSpells {op : UInt8} {bytes : Bytes} {e : Element} (payload : Packed op bytes e) :
    Spells (op :: bytes) rest e := by
  cases payload with
  | fixed code few size =>
    refine binarySpells (by omega) fun line => ?_
    rw [binaryFixed code few, sizedWhole size]
  | short code few size =>
    refine binarySpells (by omega) fun line => ?_
    rw [binaryShort code few, sizedWhole size]
  | long code few width size =>
    refine binarySpells (by omega) fun line => ?_
    rw [binaryLong code few, countedRead width (by omega)]
  | floats code few width size =>
    refine binarySpells (by omega) fun line => ?_
    rw [binaryFloats code few, countedRead width size]
  | single code size | double code size | defineRequest code size | recallRequest code size =>
    subst code
    exact binarySpells (by decide) fun line => sizedWhole size _ line
  | defineString code | recallString code =>
    rcases code with ⟨rfl, size⟩ | ⟨rfl, size⟩
    · exact binarySpells (by decide) fun line => sizedWhole size _ line
    · exact binarySpells (by decide) fun line => sizedWhole size _ line

theorem nameSpelled {b : UInt8} {tail : Bytes} (first : startsName b = true)
    (more : ∀ x ∈ tail, continuesName x = true) (apart : Apart rest) :
    Spells (b :: tail) rest (.token (.name (String.ofList (ascii (b :: tail))))) := by
  have value := nameValue first
  refine spellsElement ?_ fun line => ?_
  · simp only [isBlank, Bool.or_eq_false_iff, beq_eq_false_iff_ne, ne_eq, ← UInt8.toNat_inj, UInt8.reduceToNat]
    omega
  · have stop : ∀ x ∈ rest.head?, continuesName x = false := by
      intro x head
      have value := apartValue apart head
      simp [continuesName, isLetter, isDigit, UInt8.le_iff_toNat_le, ← UInt8.toNat_inj]
      omega
    obtain ⟨after, text⟩ := textWhileAppend more stop line
    exact ⟨after, (Cursor.mk rest after).atEnd, by rw [elementName first, text]⟩

theorem numberSpelled {text : Bytes} (numeral : Numeral text) (apart : Apart rest) :
    Spells text rest (number (ascii text)) := by
  obtain ⟨b, tail, rfl, first⟩ := numeralStarts numeral
  have value := numberValue first
  refine spellsElement ?_ fun line => ?_
  · simp only [isBlank, Bool.or_eq_false_iff, beq_eq_false_iff_ne, ne_eq, ← UInt8.toNat_inj, UInt8.reduceToNat]
    omega
  · obtain ⟨after, text⟩ := numberTextSpelled numeral apart line
    exact ⟨after, (Cursor.mk rest after).atEnd, by rw [elementNumber first, text]⟩

theorem elementStray {b : UInt8} (low : b < 0x80) (mark : b ∉ [91, 93, 35, 34]) (number : startsNumber b = false)
    (name : startsName b = false) (c : Cursor) :
    elementAt b c = (.fault (.unexpected (Char.ofNat b.toNat)), c, false) := by
  have small : ¬ 0x80 ≤ b := UInt8.not_le.mpr low
  simp only [List.mem_cons, List.not_mem_nil, or_false, not_or] at mark
  unfold elementAt
  simp [small, mark, number, name]

/-- A word is read as its element; only a name and a number have to end where nothing continues them. -/
theorem wordSpells {word : Bytes} {e : Element} (spelled : Spelled word e) (apart : isLoose word = true → Apart rest) :
    Spells word rest e := by
  cases spelled with
  | opening => exact spellsElement rfl fun line => ⟨line, false, rfl⟩
  | closing => exact spellsElement rfl fun line => ⟨line, false, rfl⟩
  | name first more => exact nameSpelled first more (apart (by simp [isLoose, first]))
  | number numeral =>
    refine numberSpelled numeral (apart ?_)
    obtain ⟨b, tail, rfl, first⟩ := numeralStarts numeral
    simp [isLoose, first]
  | quoted inside => exact quotedSpells inside rest
  | comment line unmarked =>
    exact remarkSpells line fun n => by
      rw [List.append_assoc]
      exact marksNone unmarked rest n
  | structured line =>
    exact remarkSpells line fun n => by
      rw [List.cons_append, List.append_assoc]
      rfl
  | packed payload => exact packedSpells payload
  | stray low visible mark number name =>
    exact spellsElement visible fun line => ⟨line, false, elementStray low mark number name _⟩

end SceneStream.Stream
