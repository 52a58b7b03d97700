import SceneStream.Stream.Reader
import SceneStream.Stream.Token

/-! The lexer as it reads: a byte at a time from a reader, with the byte that ends a token put back. What it
has taken for good is kept in pieces, and the line of its reader counts the newlines among those of text. -/
namespace SceneStream.Stream

/-- A byte taken for good, as text or in a payload. -/
structure Piece where
  byte : UInt8
  text : Bool
  deriving DecidableEq, Repr

def textOf (spent : List Piece) : Bytes := (spent.filter Piece.text).map Piece.byte

theorem textOfText (spent : List Piece) (b : UInt8) : textOf (spent ++ [⟨b, true⟩]) = textOf spent ++ [b] := by
  simp [textOf]

theorem textOfPayload (spent : List Piece) (bytes : Bytes) :
    textOf (spent ++ bytes.map (⟨·, false⟩)) = textOf spent := by
  simp [textOf, List.filter_map, Function.comp_def]

theorem newlinesAppend (l m : Bytes) : newlines (l ++ m) = newlines l + newlines m := List.count_append

theorem newlinesOne (b : UInt8) : newlines [b] = if b == newline then 1 else 0 := List.count_singleton

namespace Reader

/-- A reader after it has taken some pieces of the bytes: they and what is unread are all the bytes, and no
newline counts but those taken as text. -/
structure Counts (bytes : Bytes) (spent : List Piece) (r : Reader) : Prop where
  whole : spent.map Piece.byte ++ r.unread = bytes
  line : r.line = 1 + newlines (textOf spent)

section Counts
variable {bytes : Bytes} {spent : List Piece} {r after : Reader} {b : UInt8}

theorem countsStart (bytes : Bytes) : Counts bytes [] (.start bytes) := ⟨rfl, rfl⟩

theorem textByteUnread (r : Reader) : r.textByte? =
    match r.unread with
    | [] => (none, r)
    | b :: rest => (some b, ⟨none, rest, r.line + newlines [b]⟩) := by
  obtain ⟨held, source, line⟩ := r
  have counted (b : UInt8) (rest : Bytes) : (if some b == some newline then
      (⟨none, rest, line + 1⟩ : Reader) else ⟨none, rest, line⟩) = ⟨none, rest, line + newlines [b]⟩ := by
    by_cases feed : b = newline <;> simp [newlinesOne, feed]
  cases held with
  | some b => exact congrArg (some b, ·) (counted b source)
  | none =>
    cases source with
    | nil => rfl
    | cons b source => exact congrArg (some b, ·) (counted b source)

theorem textByteTaken (read : r.textByte? = (some b, after)) :
    r.unread = b :: after.unread ∧ after.held = none ∧ after.line = r.line + newlines [b] := by
  rw [textByteUnread] at read
  split at read
  · cases read
  · rename_i same
    cases read
    exact ⟨same, rfl, rfl⟩

theorem textByteNone (read : r.textByte? = (none, after)) : r.unread = [] ∧ after = r := by
  rw [textByteUnread] at read
  split at read
  · rename_i same
    cases read
    exact ⟨same, rfl⟩
  · cases read

theorem countsText (before : Counts bytes spent r) (read : r.textByte? = (some b, after)) :
    Counts bytes (spent ++ [⟨b, true⟩]) after := by
  obtain ⟨unread, -, line⟩ := textByteTaken read
  refine ⟨?_, ?_⟩
  · rw [← before.whole, unread]
    simp
  · rw [line, before.line, textOfText, newlinesAppend, Nat.add_assoc]

theorem countsBack (before : Counts bytes spent r) (read : r.textByte? = (some b, after)) :
    Counts bytes spent (after.putBack b) := by
  obtain ⟨unread, free, line⟩ := textByteTaken read
  refine ⟨?_, ?_⟩
  · rw [putBackUnread b after free, ← unread, before.whole]
  · rw [← before.line]
    simp only [putBack, line, newlinesOne]
    split <;> simp

theorem payloadSpent (n : Nat) (r : Reader) :
    (r.payload n).2.unread = r.unread.drop n ∧ (r.payload n).2.line = r.line := by
  unfold payload
  split
  · rename_i taken rest found
    obtain ⟨new, -, whole, size⟩ := Cursor.takeExactlySound n [] r.unread taken rest found
    split
    · rename_i zero
      simp [zero]
    · refine ⟨?_, rfl⟩
      rw [whole, ← size, List.drop_left]
      rfl
  · rename_i missing
    refine ⟨?_, rfl⟩
    have short : r.unread.length ≤ n := by
      refine Nat.le_of_not_lt fun long => ?_
      have found := Cursor.takeExactlyComplete (r.unread.take n) [] (r.unread.drop n)
      rw [List.take_append_drop, List.length_take, Nat.min_eq_left (by omega), missing] at found
      cases found
    exact (List.drop_eq_nil_of_le short).symm

theorem countsPayload (before : Counts bytes spent r) (n : Nat) :
    Counts bytes (spent ++ (r.unread.take n).map (⟨·, false⟩)) (r.payload n).2 := by
  obtain ⟨unread, line⟩ := payloadSpent n r
  refine ⟨?_, ?_⟩
  · rw [unread, ← before.whole]
    simp [Function.comp_def]
  · rw [line, textOfPayload, before.line]

end Counts
end Reader

/-! A turn of the lexer. -/

inductive Kind where
  | name
  | whole
  | places
  | power
  | hash
  | remark (structured : Bool)
  | string (inside : Inside)
  deriving DecidableEq, Repr

/-- An element begun: its bytes so far, the latest first, and the line it started on. -/
structure Making where
  kind : Kind
  text : Bytes
  line : Nat
  deriving DecidableEq, Repr

inductive Move where
  | keep (kind : Kind) (text : Bytes)
  /-- The byte is put back and is looked at once more. -/
  | again (kind : Kind) (text : Bytes)
  /-- The byte is the last. -/
  | close (e : Element)
  /-- The byte comes after the last, and is put back. -/
  | before (e : Element)

def nameElement (text : Bytes) : Element := .token (.name (String.ofList (ascii text.reverse)))
def numberElement (text : Bytes) : Element := number (ascii text.reverse)
def remarkElement (structured : Bool) (text : Bytes) : Element :=
  .token (.comment (withoutReturn (Text.Utf8.decode text.reverse)) structured)

/-- Octal digits that `b` does not go on with stand for a byte. -/
def octalOver? (b : UInt8) : Inside → Option UInt8
  | .octal value _ => if isOctal b then none else some (UInt8.ofNat value)
  | _ => none

def isPower (b : UInt8) : Bool := b == 101 || b == 69
def isSign (b : UInt8) : Bool := b == 43 || b == 45

def Kind.move (text : Bytes) (b : UInt8) : Kind → Move
  | name => if continuesName b then .keep name (b :: text) else .before (nameElement text)
  | whole =>
    if isDigit b then .keep whole (b :: text)
    else if b == 46 then .keep places (b :: text)
    else if isPower b then .keep power (b :: text)
    else .before (numberElement text)
  | places =>
    if isDigit b then .keep places (b :: text)
    else if isPower b then .keep power (b :: text)
    else .before (numberElement text)
  | power =>
    if isDigit b then .keep power (b :: text)
    else if isSign b && text.head?.any isPower then .keep power (b :: text)
    else .before (numberElement text)
  | hash =>
    if b == 35 then .keep (remark true) text
    else if b == newline then .close (remarkElement false text)
    else .keep (remark false) (b :: text)
  | remark structured =>
    if b == newline then .close (remarkElement structured text)
    else .keep (remark structured) (b :: text)
  | string inside => match octalOver? b inside with
    | some value => .again (string .plain) (value :: text)
    | none => match stringStep inside text b with
      | .more inside text => .keep (string inside) text
      | .closed text => .close (stringElement text.reverse)

/-- The element if the bytes end within it. -/
def Kind.atEnd (text : Bytes) : Kind → Element
  | name => nameElement text
  | whole | places | power => numberElement text
  | hash => remarkElement false text
  | remark structured => remarkElement structured text
  | string _ => .fault .unterminated

/-- Between two elements nothing is begun. -/
structure Machine where
  reader : Reader
  making : Option Making
  deriving DecidableEq, Repr

inductive Turn where
  | on (m : Machine)
  | found (e : Element) (line : Nat) (r : Reader)
  | ended (r : Reader)

def payloadTaken (op : UInt8) (r : Reader) : Nat :=
  r.unread.length - (binary op ⟨r.unread, r.line⟩).2.1.rest.length

def begun (b : UInt8) (r : Reader) : Turn :=
  if isBlank b then .on ⟨r, none⟩
  else if 0x80 ≤ b then .found (binary b ⟨r.unread, r.line⟩).1 r.line (r.payload (payloadTaken b r)).2
  else if b == 91 then .found (.token .opening) r.line r
  else if b == 93 then .found (.token .closing) r.line r
  else if b == 35 then .on ⟨r, some ⟨.hash, [], r.line⟩⟩
  else if b == 34 then .on ⟨r, some ⟨.string .plain, [], r.line⟩⟩
  else if startsNumber b then .on ⟨r, some ⟨if b == 46 then .places else .whole, [b], r.line⟩⟩
  else if startsName b then .on ⟨r, some ⟨.name, [b], r.line⟩⟩
  else .found (.fault (.unexpected (Char.ofNat b.toNat))) r.line r

def moved (x : Making) (b : UInt8) (r : Reader) : Turn :=
  match x.kind.move x.text b with
  | .keep kind text => .on ⟨r, some ⟨kind, text, x.line⟩⟩
  | .again kind text => .on ⟨r.putBack b, some ⟨kind, text, x.line⟩⟩
  | .close e => .found e x.line r
  | .before e => .found e x.line (r.putBack b)

def Machine.turn (m : Machine) : Turn :=
  match m.reader.textByte?, m.making with
  | (some b, r), none => begun b r
  | (some b, r), some x => moved x b r
  | (none, r), none => .ended r
  | (none, r), some x => .found (x.kind.atEnd x.text) x.line r

/-! What a turn takes. -/

def Move.keeps : Move → Bool
  | keep .. | close _ => true
  | again .. | before _ => false

/-- The pieces taken for good in a turn: the byte it reads, unless that is put back, and a payload. -/
def Machine.takes (m : Machine) : List Piece :=
  match m.reader.textByte?, m.making with
  | (none, _), _ => []
  | (some b, _), some x => if (x.kind.move x.text b).keeps then [⟨b, true⟩] else []
  | (some b, r), none =>
    [⟨b, true⟩] ++ if 0x80 ≤ b then (r.unread.take (payloadTaken b r)).map (⟨·, false⟩) else []

def Turn.reader : Turn → Reader
  | on m => m.reader
  | found _ _ r | ended r => r

section Turn
variable {bytes : Bytes} {spent : List Piece} {r : Reader} {b : UInt8}

theorem blankLow (blank : isBlank b) : ¬ 0x80 ≤ b := by
  simp only [isBlank, Bool.or_eq_true, beq_iff_eq] at blank
  obtain (((((rfl | rfl) | rfl) | rfl) | rfl) | rfl) := blank <;> decide

theorem countsBegun (before : Reader.Counts bytes spent r) (b : UInt8) :
    Reader.Counts bytes (spent ++ if 0x80 ≤ b then (r.unread.take (payloadTaken b r)).map (⟨·, false⟩) else [])
      (begun b r).reader := by
  unfold begun
  by_cases blank : isBlank b
  · rw [if_pos blank, if_neg (blankLow blank), List.append_nil]
    exact before
  rw [if_neg blank]
  by_cases high : 0x80 ≤ b
  · rw [if_pos high, if_pos high]
    exact Reader.countsPayload before _
  rw [if_neg high, if_neg high, List.append_nil]
  repeat (split; exact before)
  exact before

theorem countsMoved (before : Reader.Counts bytes spent r) {after : Reader}
    (read : r.textByte? = (some b, after)) (x : Making) :
    Reader.Counts bytes (spent ++ if (x.kind.move x.text b).keeps then [⟨b, true⟩] else [])
      (moved x b after).reader := by
  have kept := Reader.countsText before read
  have back := Reader.countsBack before read
  unfold moved
  cases x.kind.move x.text b with
  | keep | close => exact kept
  | again | before => rwa [show Move.keeps _ = false from rfl, if_neg Bool.false_ne_true, List.append_nil]

theorem countsTurn {m : Machine} (before : Reader.Counts bytes spent m.reader) :
    Reader.Counts bytes (spent ++ m.takes) m.turn.reader := by
  unfold Machine.takes Machine.turn
  cases read : m.reader.textByte? with
  | mk b r =>
    cases b with
    | none =>
      obtain ⟨-, rfl⟩ := Reader.textByteNone read
      rw [List.append_nil]
      cases m.making <;> exact before
    | some b =>
      cases m.making with
      | none =>
        rw [← List.append_assoc]
        exact countsBegun (Reader.countsText before read) b
      | some x => exact countsMoved before read x

end Turn

/-- The points of lexing, each with the pieces taken by then. -/
inductive Reached (bytes : Bytes) : Machine → List Piece → Prop where
  | start : Reached bytes ⟨.start bytes, none⟩ []
  | on {m after : Machine} {spent : List Piece} (before : Reached bytes m spent) (turn : m.turn = .on after) :
      Reached bytes after (spent ++ m.takes)
  | next {m : Machine} {spent : List Piece} {e : Element} {line : Nat} {r : Reader}
      (before : Reached bytes m spent) (turn : m.turn = .found e line r) :
      Reached bytes ⟨r, none⟩ (spent ++ m.takes)

theorem reachedCounts {bytes : Bytes} {m : Machine} {spent : List Piece} (reached : Reached bytes m spent) :
    m.reader.Counts bytes spent := by
  induction reached with
  | start => exact Reader.countsStart bytes
  | on before turn ih =>
    have counts := countsTurn ih
    rwa [turn] at counts
  | next before turn ih =>
    have counts := countsTurn ih
    rwa [turn] at counts

end SceneStream.Stream
