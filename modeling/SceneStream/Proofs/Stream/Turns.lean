import SceneStream.Proofs.Stream.Machine
import SceneStream.Proofs.Stream.Plain

/-! Turn by turn the lexer finds each element that is scanned at once: the same element, on the same line, with
the same bytes left. -/
namespace SceneStream.Stream

structure Reader.At (r : Reader) (c : Cursor) : Prop where
  rest : r.unread = c.rest
  line : r.line = c.line

/-- The element that the turns from a machine on come to, the line of it, and the reader after it. -/
inductive Finds : Machine → Element → Nat → Reader → Prop where
  | found {m : Machine} {e : Element} {line : Nat} {r : Reader} (turn : m.turn = .found e line r) :
      Finds m e line r
  | on {m next : Machine} {e : Element} {line : Nat} {r : Reader} (turn : m.turn = .on next)
      (later : Finds next e line r) : Finds m e line r

/-- The turns come to an element, and leave the reader where `c` is. -/
def Comes (m : Machine) (e : Element) (line : Nat) (c : Cursor) : Prop :=
  ∃ r, Finds m e line r ∧ r.At c

section Comes
variable {m next : Machine} {e : Element} {line : Nat} {c : Cursor} {r : Reader} {b : UInt8} {rest text : Bytes}

theorem comesFound (turn : m.turn = .found e line r) (place : r.At c) : Comes m e line c :=
  ⟨r, .found turn, place⟩

theorem comesOn (turn : m.turn = .on next) (later : Comes next e line c) : Comes m e line c := by
  obtain ⟨r, finds, place⟩ := later
  exact ⟨r, .on turn finds, place⟩

theorem comesSame (same : m.turn = next.turn) (later : Comes next e line c) : Comes m e line c := by
  obtain ⟨r, finds, place⟩ := later
  cases finds with
  | found turn => exact ⟨r, .found (same.trans turn), place⟩
  | on turn later => exact ⟨r, .on (same.trans turn) later, place⟩

theorem textByteAt (place : r.At c) (first : c.rest = b :: rest) :
    ∃ after, r.textByte? = (some b, after) ∧ after.At ⟨rest, c.line + newlines [b]⟩ ∧
      (after.putBack b).At c := by
  have same : r.unread = b :: rest := place.rest.trans first
  refine ⟨⟨none, rest, r.line + newlines [b]⟩, ?_, ⟨rfl, by rw [place.line]⟩, ⟨?_, ?_⟩⟩
  · rw [Reader.textByteUnread, same]
  · exact (Reader.putBackUnread b _ rfl).trans first.symm
  · simp only [Reader.putBack, newlinesOne, ← place.line]
    split <;> simp

theorem textEndAt (place : r.At c) (ended : c.rest = []) : r.textByte? = (none, r) := by
  rw [Reader.textByteUnread, place.rest, ended]

theorem turnByte {after : Reader} (read : r.textByte? = (some b, after)) (x : Making) :
    Machine.turn ⟨r, some x⟩ = moved x b after := by simp only [Machine.turn, read]

variable {kind : Kind}

theorem comesEnd (place : r.At c) (ended : c.rest = []) :
    Comes ⟨r, some ⟨kind, text, line⟩⟩ (kind.atEnd text) line c := by
  refine comesFound (r := r) ?_ place
  simp only [Machine.turn, textEndAt place ended]

theorem comesKeep {kind' : Kind} {text' : Bytes} (place : r.At c) (first : c.rest = b :: rest)
    (move : kind.move text b = .keep kind' text') {after : Cursor}
    (later : ∀ r, r.At ⟨rest, c.line + newlines [b]⟩ → Comes ⟨r, some ⟨kind', text', line⟩⟩ e line after) :
    Comes ⟨r, some ⟨kind, text, line⟩⟩ e line after := by
  obtain ⟨next, read, there, -⟩ := textByteAt place first
  refine comesOn ?_ (later next there)
  rw [turnByte read]
  simp only [moved, move]

theorem comesAgain {kind' : Kind} {text' : Bytes} (place : r.At c) (first : c.rest = b :: rest)
    (move : kind.move text b = .again kind' text') {after : Cursor}
    (later : ∀ r, r.At c → Comes ⟨r, some ⟨kind', text', line⟩⟩ e line after) :
    Comes ⟨r, some ⟨kind, text, line⟩⟩ e line after := by
  obtain ⟨next, read, -, back⟩ := textByteAt place first
  refine comesOn ?_ (later _ back)
  rw [turnByte read]
  simp only [moved, move]

theorem comesClose (place : r.At c) (first : c.rest = b :: rest) (move : kind.move text b = .close e) :
    Comes ⟨r, some ⟨kind, text, line⟩⟩ e line ⟨rest, c.line + newlines [b]⟩ := by
  obtain ⟨next, read, there, -⟩ := textByteAt place first
  refine comesFound (r := next) ?_ there
  rw [turnByte read]
  simp only [moved, move]

theorem comesBefore (place : r.At c) (ended : kind.atEnd text = e)
    (stops : ∀ b rest, c.rest = b :: rest → kind.move text b = .before e) :
    Comes ⟨r, some ⟨kind, text, line⟩⟩ e line c := by
  cases same : c.rest with
  | nil => exact ended ▸ comesEnd place same
  | cons b rest =>
    obtain ⟨next, read, -, back⟩ := textByteAt place same
    refine comesFound (r := next.putBack b) ?_ back
    rw [turnByte read]
    simp only [moved, stops b rest same]

theorem textWhileCons (p : UInt8 → Bool) (go : p b) (rest : Bytes) (line : Nat) :
    Cursor.textWhile p ⟨b :: rest, line⟩ =
      (b :: (Cursor.textWhile p ⟨rest, line + newlines [b]⟩).1,
        (Cursor.textWhile p ⟨rest, line + newlines [b]⟩).2) := by
  have feeds : newlines (b :: rest.takeWhile p) = newlines [b] + newlines (rest.takeWhile p) :=
    newlinesAppend [b] _
  simp only [Cursor.textWhile, List.takeWhile_cons_of_pos go, List.dropWhile_cons_of_pos go, feeds,
    Nat.add_assoc]

theorem textWhileStops {p : UInt8 → Bool} (first : (c.textWhile p).2.rest = b :: rest) : p b = false := by
  have stopped := List.head?_dropWhile_not p c.rest
  rwa [show c.rest.dropWhile p = b :: rest from first] at stopped

theorem comesWhile {p : UInt8 → Bool} (stays : ∀ text b, p b → kind.move text b = .keep kind (b :: text))
    {after : Cursor} (place : r.At c)
    (later : ∀ r, r.At (c.textWhile p).2 →
      Comes ⟨r, some ⟨kind, (c.textWhile p).1.reverse ++ text, line⟩⟩ e line after) :
    Comes ⟨r, some ⟨kind, text, line⟩⟩ e line after := by
  obtain ⟨bytes, start⟩ := c
  induction bytes generalizing r text start with
  | nil => exact later r place
  | cons b bytes ih =>
    by_cases go : p b
    · refine comesKeep place rfl (stays text b go) fun next there => ih _ there fun r reached => ?_
      rw [textWhileCons p go] at later
      have comes := later r reached
      rwa [List.reverse_cons, List.append_assoc] at comes
    · have stop : Cursor.textWhile p ⟨b :: bytes, start⟩ = ([], ⟨b :: bytes, start⟩) := by
        simp [Cursor.textWhile, go, newlines]
      rw [stop] at later
      exact later r place

end Comes

/-! Names and numbers. -/

section Number
variable {r : Reader} {c : Cursor} {line : Nat} {text : Bytes} {kind : Kind}

theorem nameComes (place : r.At c) :
    Comes ⟨r, some ⟨.name, text, line⟩⟩
      (nameElement ((c.textWhile continuesName).1.reverse ++ text)) line (c.textWhile continuesName).2 := by
  refine comesWhile (p := continuesName) (fun text b go => by rw [Kind.move, if_pos go]) place fun r there => ?_
  refine comesBefore there rfl fun b rest first => ?_
  rw [Kind.move, if_neg (Bool.eq_false_iff.mp (textWhileStops first))]

theorem digitNoPower {b : UInt8} (digit : isDigit b) : isPower b = false := by
  simp only [isDigit, Bool.and_eq_true, decide_eq_true_eq, UInt8.le_iff_toNat_le] at digit
  simp only [isPower, Bool.or_eq_false_iff, beq_eq_false_iff_ne, ne_eq, ← UInt8.toNat_inj]
  have upper : b.toNat ≤ 57 := digit.2
  exact ⟨fun same => absurd (same ▸ upper) (by decide), fun same => absurd (same ▸ upper) (by decide)⟩

theorem powerDigitsComes (place : r.At c)
    (unsigned : text.head?.any isPower → ∀ b rest, c.rest = b :: rest → isSign b = false) :
    Comes ⟨r, some ⟨.power, text, line⟩⟩
      (numberElement ((c.textWhile isDigit).1.reverse ++ text)) line (c.textWhile isDigit).2 := by
  refine comesWhile (p := isDigit) (fun text b go => by rw [Kind.move, if_pos go]) place fun r there => ?_
  refine comesBefore there rfl fun b rest first => ?_
  have done : (isSign b && ((c.textWhile isDigit).1.reverse ++ text).head?.any isPower) = false := by
    cases digits : (c.textWhile isDigit).1.reverse with
    | nil =>
      have none : c.rest.takeWhile isDigit = [] := List.reverse_eq_nil_iff.mp digits
      have same : c.rest = b :: rest := by
        rw [← first, ← List.takeWhile_append_dropWhile (p := isDigit) (l := c.rest), none]
        rfl
      cases led : text.head?.any isPower with
      | false => simp [led]
      | true => rw [unsigned led b rest same, Bool.false_and]
    | cons d ds =>
      have member : d ∈ c.rest.takeWhile isDigit := List.mem_reverse.mp (digits ▸ List.mem_cons_self)
      have digit : isDigit d := (List.all_eq_true.mp List.all_takeWhile) d member
      simp [digitNoPower digit]
  rw [Kind.move, if_neg (Bool.eq_false_iff.mp (textWhileStops first)), done, if_neg Bool.false_ne_true]

structure Unpowered (kind : Kind) (text : Bytes) (c : Cursor) : Prop where
  letter : ∀ b, isPower b → kind.move text b = .keep .power (b :: text)
  stops : ∀ b rest, c.rest = b :: rest → isPower b = false → kind.move text b = .before (numberElement text)
  atEnd : kind.atEnd text = numberElement text

theorem lineKept {b : UInt8} (other : b ≠ newline) (line : Nat) : line + newlines [b] = line := by
  rw [newlinesOne, if_neg (by simpa using other), Nat.add_zero]

theorem feedLine (b : UInt8) (line : Nat) : (if b == newline then line + 1 else line) = line + newlines [b] := by
  rw [newlinesOne]
  split <;> rfl

theorem signOther {s : UInt8} (signed : isSign s) : isDigit s = false ∧ isPower s = false ∧ s ≠ newline := by
  simp only [isSign, Bool.or_eq_true, beq_iff_eq] at signed
  rcases signed with rfl | rfl <;> decide

theorem powerFeed {e : UInt8} (powered : isPower e) : e ≠ newline := by
  rintro rfl
  cases powered

theorem powerComes (place : r.At c) (unpowered : Unpowered kind text c) :
    Comes ⟨r, some ⟨kind, text, line⟩⟩ (numberElement ((power c).1.reverse ++ text)) line (power c).2 := by
  obtain ⟨letter, stops, atEnd⟩ := unpowered
  obtain ⟨bytes, start⟩ := c
  cases bytes with
  | nil => exact comesBefore place atEnd fun _ _ first => by cases first
  | cons e rest =>
    cases powered : isPower e with
    | false =>
      have none : power ⟨e :: rest, start⟩ = ([], ⟨e :: rest, start⟩) :=
        if_neg (Bool.eq_false_iff.mp powered)
      rw [none]
      refine comesBefore place atEnd fun b more first => ?_
      cases first
      exact stops e rest rfl powered
    | true =>
      refine comesKeep place rfl (letter e powered) fun r there => ?_
      rw [lineKept (powerFeed powered)] at there
      by_cases signed : ∃ s more, rest = s :: more ∧ isSign s
      · obtain ⟨s, more, rfl, signed⟩ := signed
        obtain ⟨noDigit, noPower, noFeed⟩ := signOther signed
        have move : Kind.move (e :: text) s .power = .keep .power (s :: e :: text) := by
          simp [Kind.move, noDigit, signed, powered]
        rw [powerSigned (by simpa [isPower] using powered) (by simpa [isSign] using signed) rfl]
        refine comesKeep there rfl move fun r there => ?_
        rw [lineKept noFeed] at there
        simp only [List.reverse_cons, List.append_assoc, List.cons_append, List.nil_append]
        exact powerDigitsComes there fun led => by simp [noPower] at led
      · have unsigned : ∀ s more, rest = s :: more → isSign s = false := fun s more same =>
          Bool.eq_false_iff.mpr fun sign => signed ⟨s, more, same, sign⟩
        have plain : ∀ s ∈ rest.head?, s ≠ 43 ∧ s ≠ 45 := fun s head => by
          obtain ⟨more, same⟩ := List.head?_eq_some_iff.mp head
          simpa [isSign] using unsigned s more same
        rw [powerPlain (by simpa [isPower] using powered) plain rfl]
        simp only [List.reverse_cons, List.append_assoc, List.cons_append, List.nil_append]
        exact powerDigitsComes there fun _ => unsigned

theorem unpowered (stopped : ∀ b rest, c.rest = b :: rest → isDigit b = false)
    (fits : kind = .places ∨ kind = .whole ∧ ∀ b rest, c.rest = b :: rest → b ≠ 46) :
    Unpowered kind text c where
  letter b powered := by
    have other : isDigit b = false := Bool.eq_false_iff.mpr fun digit => by simp [digitNoPower digit] at powered
    have point : b ≠ 46 := fun same => by simp [same, isPower] at powered
    rcases fits with rfl | ⟨rfl, -⟩ <;> simp [Kind.move, other, powered, point]
  stops b rest first powered := by
    rcases fits with rfl | ⟨rfl, point⟩
    · simp [Kind.move, stopped b rest first, powered]
    · simp [Kind.move, stopped b rest first, powered, point b rest first]
  atEnd := by rcases fits with rfl | ⟨rfl, -⟩ <;> rfl

theorem placesComes (place : r.At c) :
    Comes ⟨r, some ⟨.places, text, line⟩⟩
      (numberElement ((power (c.textWhile isDigit).2).1.reverse ++ ((c.textWhile isDigit).1.reverse ++ text)))
      line (power (c.textWhile isDigit).2).2 := by
  refine comesWhile (p := isDigit) (fun text b go => by rw [Kind.move, if_pos go]) place fun r there => ?_
  exact powerComes there (unpowered (fun _ _ => textWhileStops) (.inl rfl))

theorem pointComes (place : r.At c) (stopped : ∀ b rest, c.rest = b :: rest → isDigit b = false) :
    Comes ⟨r, some ⟨.whole, text, line⟩⟩
      (numberElement ((power (places c).2).1.reverse ++ ((places c).1.reverse ++ text))) line
      (power (places c).2).2 := by
  by_cases pointed : ∃ rest, c.rest = 46 :: rest
  · obtain ⟨rest, first⟩ := pointed
    obtain ⟨bytes, start⟩ := c
    cases first
    have move : Kind.move text 46 .whole = .keep .places (46 :: text) := rfl
    refine comesKeep place rfl move fun r there => ?_
    rw [lineKept (by decide)] at there
    rw [placesDigits rfl]
    simp only [List.reverse_cons, List.append_assoc, List.cons_append, List.nil_append]
    exact placesComes there
  · have other : ∀ b rest, c.rest = b :: rest → b ≠ 46 := fun b rest first same =>
      pointed ⟨rest, same ▸ first⟩
    have none : places c = ([], c) := placesNone fun b head => by
      obtain ⟨rest, first⟩ := List.head?_eq_some_iff.mp head
      exact other b rest first
    rw [none]
    exact powerComes place (unpowered stopped (.inr ⟨rfl, other⟩))

theorem numberComes {b : UInt8} (place : r.At c) :
    Comes ⟨r, some ⟨if b == 46 then .places else .whole, [b], line⟩⟩ (number (ascii (numberText b c).1)) line
      (numberText b c).2 := by
  cases point : b == 46 with
  | true =>
    have comes : Comes ⟨r, some ⟨.places, [b], line⟩⟩ _ line _ := placesComes place
    simpa [numberText, point, numberElement] using comes
  | false =>
    have stays (text : Bytes) (b : UInt8) (go : isDigit b) : Kind.move text b .whole = .keep .whole (b :: text) := by
      rw [Kind.move, if_pos go]
    have comes : Comes ⟨r, some ⟨.whole, [b], line⟩⟩ _ line _ := comesWhile stays place fun r there =>
      pointComes there fun _ _ => textWhileStops
    simpa [numberText, point, numberElement] using comes

end Number

/-! Comments. -/

section Remark
variable {r : Reader} {c : Cursor} {line : Nat} {text : Bytes}

theorem remarkComes (structured : Bool) (place : r.At c) :
    Comes ⟨r, some ⟨.remark structured, [], line⟩⟩ (commentBody structured c).1 line
      (commentBody structured c).2.1 := by
  have stays (text : Bytes) (b : UInt8) (go : (b != newline) = true) :
      Kind.move text b (.remark structured) = .keep (.remark structured) (b :: text) := by
    rw [Kind.move, if_neg (by simpa using go)]
  refine comesWhile stays place fun r there => ?_
  unfold commentBody
  dsimp only
  generalize body : c.textWhile (· != newline) = x at there ⊢
  obtain ⟨text, after⟩ := x
  have element : remarkElement structured (text.reverse ++ []) =
      .token (.comment (withoutReturn (Text.Utf8.decode text)) structured) := by simp [remarkElement]
  cases rest : after.rest with
  | nil =>
    rw [Cursor.textByte?, rest, ← element]
    exact comesEnd there rest
  | cons b more =>
    have first : (c.textWhile (· != newline)).2.rest = b :: more := by rw [body]; exact rest
    have feed : b = newline := by simpa using textWhileStops (p := (· != newline)) first
    have move : Kind.move (text.reverse ++ []) b (.remark structured) =
        .close (remarkElement structured (text.reverse ++ [])) := if_pos (by simp [feed])
    rw [Cursor.textByte?, rest, ← element]
    dsimp only
    rw [feedLine]
    exact comesClose there rest move

theorem hashTurn (place : r.At c) (other : ∀ b rest, c.rest = b :: rest → b ≠ 35) :
    Machine.turn ⟨r, some ⟨.hash, [], line⟩⟩ = Machine.turn ⟨r, some ⟨.remark false, [], line⟩⟩ := by
  cases same : c.rest with
  | nil => simp only [Machine.turn, textEndAt place same, Kind.atEnd]
  | cons b rest =>
    obtain ⟨next, read, -, -⟩ := textByteAt place same
    simp [turnByte read, moved, Kind.move, other b rest same]

theorem hashComes (place : r.At c) :
    Comes ⟨r, some ⟨.hash, [], line⟩⟩ (comment c).1 line (comment c).2.1 := by
  rw [commentMarked]
  unfold commentMarks
  split
  · rename_i rest first
    have move : Kind.move [] 35 .hash = .keep (.remark true) [] := rfl
    refine comesKeep place first move fun r there => ?_
    rw [lineKept (by decide)] at there
    exact remarkComes true there
  · rename_i other
    exact comesSame (hashTurn place fun b rest first same => other rest (same ▸ first)) (remarkComes false place)

end Remark

/-! Strings. -/

def stringFound : Option Bytes → Element
  | some bytes => stringElement bytes
  | none => .fault .unterminated

section Quoted
variable {r : Reader} {start line : Nat} {inside : Inside} {text rest : Bytes} {b : UInt8}

theorem stringByteComes (settled : octalOver? b inside = none) (place : r.At ⟨b :: rest, start⟩)
    (later : ∀ inside text r, r.At ⟨rest, start + newlines [b]⟩ → Comes ⟨r, some ⟨.string inside, text, line⟩⟩
      (stringFound (stringBody inside text (start + newlines [b]) rest).1) line
      (stringBody inside text (start + newlines [b]) rest).2) :
    Comes ⟨r, some ⟨.string inside, text, line⟩⟩ (stringFound (stringBody inside text start (b :: rest)).1) line
      (stringBody inside text start (b :: rest)).2 := by
  rw [stringBody, feedLine]
  cases step : stringStep inside text b with
  | closed bytes => exact comesClose place rfl (by simp only [Kind.move, settled, step, stringFound])
  | more inside' text' =>
    exact comesKeep place rfl (by simp only [Kind.move, settled, step]) fun r there => later inside' text' r there

theorem octalOverBody {value : UInt8} (ended : octalOver? b inside = some value) :
    stringBody inside text start (b :: rest) = stringBody .plain (value :: text) start (b :: rest) := by
  -- Octal digits that end before `b` are a byte, and `b` is read as if that byte stood there.
  cases inside with
  | octal n more =>
    cases octal : isOctal b with
    | true => simp [octalOver?, octal] at ended
    | false =>
      have same : UInt8.ofNat n = value := by simpa [octalOver?, octal] using ended
      simp [stringBody, stringStep, octal, same]
  | _ => cases ended

theorem stringComes (place : r.At ⟨rest, start⟩) :
    Comes ⟨r, some ⟨.string inside, text, line⟩⟩ (stringFound (stringBody inside text start rest).1) line
      (stringBody inside text start rest).2 := by
  induction rest generalizing inside text r start with
  | nil => exact comesEnd place rfl
  | cons b rest ih =>
    cases ended : octalOver? b inside with
    | none => exact stringByteComes ended place fun _ _ _ there => ih there
    | some value =>
      have move : Kind.move text b (.string inside) = .again (.string .plain) (value :: text) := by
        simp only [Kind.move, ended]
      rw [octalOverBody ended]
      exact comesAgain place rfl move fun r there => stringByteComes rfl there fun _ _ _ there => ih there

end Quoted

/-! All elements. -/

section Element
variable {r after : Reader} {c : Cursor} {b : UInt8}

theorem sizedLine (n : Nat) (c : Cursor) (make : Bytes → Element) : (sized n c make).2.1.line = c.line := by
  unfold sized Cursor.payload
  cases Cursor.takeExactly n [] c.rest <;> rfl

theorem countedLine (width unit : Nat) (c : Cursor) (make : Bytes → Element) :
    (counted width unit c make).2.1.line = c.line := by
  unfold counted Cursor.payload
  cases Cursor.takeExactly width [] c.rest with
  | none => rfl
  | some taken => exact sizedLine ..

theorem binaryLine (op : UInt8) (c : Cursor) : (binary op c).2.1.line = c.line := by
  have shape := binaryShape op c
  generalize binary op c = x at shape ⊢
  cases shape with
  | sized => exact sizedLine ..
  | counted => exact countedLine ..
  | reserved => rfl

theorem payloadAt (place : r.At c) (op : UInt8) : (r.payload (payloadTaken op r)).2.At (binary op c).2.1 := by
  obtain ⟨unread, line⟩ := Reader.payloadSpent (payloadTaken op r) r
  obtain ⟨front, whole⟩ := binarySuffix op c
  have same : (⟨r.unread, r.line⟩ : Cursor) = c := by rw [place.rest, place.line]
  have size : payloadTaken op r = front.length := by
    rw [payloadTaken, same, place.rest, ← whole]
    simp
  refine ⟨?_, ?_⟩
  · rw [unread, size, place.rest, ← whole, List.drop_left]
  · rw [line, place.line, binaryLine]

theorem elementComes (visible : isBlank b = false) (read : r.textByte? = (some b, after)) (place : after.At c) :
    Comes ⟨r, none⟩ (elementAt b c).1 c.line (elementAt b c).2.1 := by
  have line : after.line = c.line := place.line
  have same : (⟨after.unread, after.line⟩ : Cursor) = c := by rw [place.rest, place.line]
  have turn : Machine.turn ⟨r, none⟩ = begun b after := by simp only [Machine.turn, read]
  rw [begun, visible, if_neg Bool.false_ne_true, same, line] at turn
  unfold elementAt
  by_cases high : 0x80 ≤ b
  · rw [if_pos high] at turn ⊢
    exact comesFound turn (payloadAt place b)
  rw [if_neg high] at turn ⊢
  by_cases opening : b == 91
  · rw [if_pos opening] at turn ⊢
    exact comesFound turn place
  rw [if_neg opening] at turn ⊢
  by_cases closing : b == 93
  · rw [if_pos closing] at turn ⊢
    exact comesFound turn place
  rw [if_neg closing] at turn ⊢
  by_cases hash : b == 35
  · rw [if_pos hash] at turn ⊢
    exact comesOn turn (hashComes place)
  rw [if_neg hash] at turn ⊢
  by_cases quote : b == 34
  · rw [if_pos quote] at turn ⊢
    have body : Comes _ _ _ (stringBody .plain [] c.line c.rest).2 := comesOn turn (stringComes place)
    cases closed : stringBody .plain [] c.line c.rest with
    | mk bytes end_ =>
      rw [closed] at body
      cases bytes <;> exact body
  rw [if_neg quote] at turn ⊢
  by_cases number : startsNumber b
  · rw [if_pos number] at turn ⊢
    exact comesOn turn (numberComes place)
  rw [if_neg number] at turn ⊢
  by_cases name : startsName b
  · rw [if_pos name] at turn ⊢
    have comes : Comes ⟨after, some ⟨.name, [b], c.line⟩⟩ _ _ _ := nameComes place
    refine comesOn turn ?_
    simpa [nameElement] using comes
  · rw [if_neg name] at turn ⊢
    exact comesFound turn place

end Element

/-! All turns of a lexer. -/

/-- The turns come to the end of the bytes and find nothing more. -/
inductive Ends : Machine → Prop where
  | ended {m : Machine} {r : Reader} (turn : m.turn = .ended r) : Ends m
  | on {m next : Machine} (turn : m.turn = .on next) (later : Ends next) : Ends m

/-- The elements that a lexer finds one after the other, each with its line. -/
inductive Lexes : Machine → List (Element × Nat) → Prop where
  | ends {m : Machine} (ends : Ends m) : Lexes m []
  | next {m : Machine} {e : Element} {line : Nat} {r : Reader} {later : List (Element × Nat)}
      (finds : Finds m e line r) (rest : Lexes ⟨r, none⟩ later) : Lexes m ((e, line) :: later)

theorem blanksOver {P : Machine → Prop} (back : ∀ {m next : Machine}, m.turn = .on next → P next → P m)
    {r : Reader} {c : Cursor} (place : r.At c) (later : ∀ r, r.At (c.textWhile isBlank).2 → P ⟨r, none⟩) :
    P ⟨r, none⟩ := by
  obtain ⟨bytes, start⟩ := c
  induction bytes generalizing r start with
  | nil => exact later r place
  | cons b bytes ih =>
    by_cases blank : isBlank b
    · obtain ⟨next, read, there, -⟩ := textByteAt place rfl
      have turn : Machine.turn ⟨r, none⟩ = .on ⟨next, none⟩ := by
        simp only [Machine.turn, read, begun, if_pos blank]
      rw [textWhileCons isBlank blank] at later
      exact back turn (ih _ there later)
    · have stop : Cursor.textWhile isBlank ⟨b :: bytes, start⟩ = ([], ⟨b :: bytes, start⟩) := by
        simp [Cursor.textWhile, blank, newlines]
      rw [stop] at later
      exact later r place

/-- Where an element starts: nothing is begun, its first byte is the next, and its line is that of the reader
once the byte is read. -/
structure Starts (s : Scan) (m : Machine) : Prop where
  idle : m.making = none
  first : ∃ b after, m.reader.textByte? = (some b, after) ∧ isBlank b = false ∧ after.line = s.line
  comes : Comes m s.element s.line s.after

theorem scanStarts {c : Cursor} {s : Scan} (found : scan? c = some s) {r : Reader}
    (place : r.At (c.textWhile isBlank).2) : Starts s ⟨r, none⟩ := by
  have stopped {b : UInt8} {rest : Bytes} (first : (c.textWhile isBlank).2.rest = b :: rest) : isBlank b = false :=
    textWhileStops first
  unfold scan? at found
  dsimp only at found
  generalize (c.textWhile isBlank).2 = d at found place stopped
  cases same : d.rest with
  | nil =>
    rw [same] at found
    cases found
  | cons b rest =>
    rw [same] at found
    cases Option.some.inj found
    have visible : isBlank b = false := stopped same
    obtain ⟨after, read, there, -⟩ := textByteAt place same
    have line : d.line + newlines [b] = d.line := by
      refine lineKept (fun feed => ?_) d.line
      rw [feed] at visible
      cases visible
    rw [line] at there
    exact ⟨rfl, ⟨b, after, read, visible, there.line⟩, elementComes visible read there⟩

theorem scanNone {c : Cursor} (none : scan? c = none) : (c.textWhile isBlank).2.rest = [] := by
  unfold scan? at none
  dsimp only at none
  split at none
  · assumption
  · cases none

theorem lexesFrom {r : Reader} {c : Cursor} (place : r.At c) :
    Lexes ⟨r, none⟩ ((scansFrom c).map fun s => (s.element, s.line)) := by
  rw [scansFromStep]
  cases found : scan? c with
  | none =>
    refine .ends (blanksOver .on place fun r there => ?_)
    refine .ended (r := r) ?_
    simp only [Machine.turn, textEndAt there (scanNone found)]
  | some s =>
    have shorter := scanShorter found
    have comes : Comes ⟨r, none⟩ s.element s.line s.after :=
      blanksOver comesOn place fun r there => (scanStarts found there).comes
    obtain ⟨after, finds, there⟩ := comes
    exact .next finds (lexesFrom there)
  termination_by c.rest.length

end SceneStream.Stream
