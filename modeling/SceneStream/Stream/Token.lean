import SceneStream.Number.Decimal
import SceneStream.Problem
import SceneStream.Request.Basic
import SceneStream.Stream.Cursor
import SceneStream.Text.Quoted
import SceneStream.Text.Utf8

/-! Elements of a stream, text and binary mixed. A text token ends at the first byte that cannot be
part of it; a byte of 0x80 or more begins a binary one, whose payload may hold any byte. -/
namespace SceneStream.Stream

inductive Token where
  | name (s : String)
  | integer (n : Int32)
  | float (x : Single)
  | string (s : String)
  | opening
  | closing
  | floats (l : List Single)
  | comment (text : String) (structured : Bool)
  deriving DecidableEq

inductive Slot where
  | request (code : UInt8)
  | string (id : UInt16)
  deriving DecidableEq, Repr

inductive Fault where
  | unexpected (c : Char)
  | malformed (text : String)
  | unterminated
  | truncated
  | undefined (s : Slot)
  | notDefined
  | unreadable (reason : String)
  deriving DecidableEq, Repr

namespace Fault

def kind : Fault → ProblemKind
  | unexpected _ | malformed _ => .badToken
  | unterminated | truncated | notDefined => .syntaxFault
  | undefined _ => .consistency
  | unreadable _ => .system

def message : Fault → String
  | unexpected c => s!"unexpected character {Text.quotedChar c}"
  | malformed text => s!"malformed number \"{text}\""
  | unterminated => "unterminated string"
  | truncated => "stream ends inside a binary token"
  | undefined (.request code) => s!"request code {code} used before it was defined"
  | undefined (.string id) => s!"string id {id} used before it was defined"
  | notDefined => "binary definition is not followed by a string"
  | unreadable reason => s!"stream read failed: {reason}"

/-- A source that fails does so nowhere in the text. -/
def problem (line : Nat) (f : Fault) : Problem :=
  match f with
  | unreadable _ => .of f.kind f.message
  | _ => (Problem.of f.kind f.message).atLine line

end Fault

inductive Element where
  | token (t : Token)
  | define (s : Slot)
  | recall (s : Slot)
  | reserved
  | fault (f : Fault)
  deriving DecidableEq

/-- One element: the line it starts on, the place after it, and whether the bytes ended before it
was seen to be complete. -/
structure Scan where
  element : Element
  line : Nat
  after : Cursor
  cut : Bool
  deriving DecidableEq

def isBlank (b : UInt8) : Bool := b == 32 || b == 9 || b == 13 || b == 10 || b == 12 || b == 0
def isDigit (b : UInt8) : Bool := 48 ≤ b && b ≤ 57
def isOctal (b : UInt8) : Bool := 48 ≤ b && b ≤ 55
def isLetter (b : UInt8) : Bool := (65 ≤ b && b ≤ 90) || (97 ≤ b && b ≤ 122)
def startsName (b : UInt8) : Bool := isLetter b || b == 95
def continuesName (b : UInt8) : Bool := isLetter b || isDigit b || b == 95
def startsNumber (b : UInt8) : Bool := b == 45 || b == 43 || isDigit b || b == 46

def ascii (bs : Bytes) : List Char := bs.map fun b => Char.ofNat b.toNat

/-! Numbers. -/

def places (c : Cursor) : Bytes × Cursor :=
  match c.rest with
  | 46 :: rest =>
    let (ds, c) := Cursor.textWhile isDigit ⟨rest, c.line⟩
    (46 :: ds, c)
  | _ => ([], c)

def power (c : Cursor) : Bytes × Cursor :=
  match c.rest with
  | e :: rest =>
    if e == 101 || e == 69 then
      let (sign, rest) := match rest with
        | s :: rest => if s == 43 || s == 45 then ([s], rest) else ([], s :: rest)
        | [] => ([], [])
      let (ds, c) := Cursor.textWhile isDigit ⟨rest, c.line⟩
      (e :: sign ++ ds, c)
    else ([], c)
  | [] => ([], c)

def numberText (b : UInt8) (c : Cursor) : Bytes × Cursor :=
  let (whole, c) := c.textWhile isDigit
  let (tail, c) := if b == 46 then ([], c) else places c
  let (exponent, c) := power c
  (b :: whole ++ tail ++ exponent, c)

def isFloatText (cs : List Char) : Bool := cs.any fun c => c == '.' || c == 'e' || c == 'E'

def number (cs : List Char) : Element :=
  let exact := if isFloatText cs then none else
    (Number.integer? cs).filter fun n => Int32.minValue.toInt ≤ n && n ≤ Int32.maxValue.toInt
  match exact, Number.Decimal.read? cs with
  | some n, _ => .token (.integer (Int32.ofInt n))
  | none, some d => .token (.float d.toSingle)
  | none, none => .fault (.malformed (String.ofList cs))

/-! Strings. -/

inductive Inside where
  | plain
  | escape
  /-- Octal digits read so far, and whether one more may follow. -/
  | octal (value : Nat) (more : Bool)
  deriving DecidableEq, Repr

def escapeByte (b : UInt8) : UInt8 :=
  if b == 110 then 10 else if b == 114 then 13 else if b == 116 then 9
  else if b == 98 then 8 else if b == 102 then 12 else b

inductive StringStep where
  | more (inside : Inside) (bytes : Bytes)
  | closed (bytes : Bytes)
  deriving DecidableEq, Repr

def plainStep (bytes : Bytes) (b : UInt8) : StringStep :=
  if b == 34 then .closed bytes
  else if b == 92 then .more .escape bytes
  else .more .plain (b :: bytes)

def stringStep (inside : Inside) (bytes : Bytes) (b : UInt8) : StringStep :=
  match inside with
  | .plain => plainStep bytes b
  | .escape =>
    if b == newline then .more .plain bytes
    else if isOctal b then .more (.octal (b.toNat - 48) true) bytes
    else .more .plain (escapeByte b :: bytes)
  | .octal value more =>
    if isOctal b then
      let value := value * 8 + (b.toNat - 48)
      if more then .more (.octal value false) bytes
      else .more .plain (UInt8.ofNat value :: bytes)
    else plainStep (UInt8.ofNat value :: bytes) b

def stringBody (inside : Inside) (bytes : Bytes) (line : Nat) : Bytes → Option Bytes × Cursor
  | [] => (none, ⟨[], line⟩)
  | b :: rest =>
    let line := if b == newline then line + 1 else line
    match stringStep inside bytes b with
    | .closed bytes => (some bytes.reverse, ⟨rest, line⟩)
    | .more inside bytes => stringBody inside bytes line rest

/-! Comments. -/

/-- A carriage return before the newline is not part of the text. -/
def withoutReturn (s : String) : String :=
  match s.toList.reverse with
  | '\r' :: rest => String.ofList rest.reverse
  | _ => s

def comment (c : Cursor) : Element × Cursor × Bool :=
  let (structured, c) := match c.rest with
    | 35 :: rest => (true, (⟨rest, c.line⟩ : Cursor))
    | _ => (false, c)
  let (text, c) := c.textWhile (· != newline)
  let e := Element.token (.comment (withoutReturn (Text.Utf8.decode text)) structured)
  match c.textByte? with
  | some (_, c) => (e, c, false)
  | none => (e, c, true)

/-! Binary elements. -/

def singles : Bytes → List Single
  | a :: b :: c :: d :: rest => .ofBigEndian a b c d :: singles rest
  | _ => []

def sized (n : Nat) (c : Cursor) (make : Bytes → Element) : Element × Cursor × Bool :=
  match c.payload n with
  | (some bytes, c) => (make bytes, c, false)
  | (none, c) => (.fault .truncated, c, true)

def counted (width unit : Nat) (c : Cursor) (make : Bytes → Element) : Element × Cursor × Bool :=
  match c.payload width with
  | (some bytes, c) => sized (bigEndian bytes * unit) c make
  | (none, c) => (.fault .truncated, c, true)

def fixedPoint (places : Nat) (bytes : Bytes) : Element :=
  let n := signedBigEndian bytes
  .token (if places = 0 then .integer (Int32.ofInt n) else .float (.ofFixed n (8 * places)))

def stringElement (bytes : Bytes) : Element := .token (.string (Text.Utf8.decode bytes))

def doubleElement (bytes : Bytes) : Element :=
  .token (.float (.ofDoubleBits (UInt64.ofNat (bigEndian bytes))))

def requestSlot (bytes : Bytes) : Slot := .request (UInt8.ofNat (bigEndian bytes))
def stringSlot (bytes : Bytes) : Slot := .string (UInt16.ofNat (bigEndian bytes))

def binary (op : UInt8) (c : Cursor) : Element × Cursor × Bool :=
  let n := op.toNat
  if op < 0x90 then sized ((n - 0x80) % 4 + 1) c (fixedPoint ((n - 0x80) / 4))
  else if op < 0xa0 then sized (n - 0x90) c stringElement
  else if op < 0xa4 then counted (n - 0xa0 + 1) 1 c stringElement
  else if op == 0xa4 then sized 4 c fun bs => .token (.float ((singles bs).headD .zero))
  else if op == 0xa5 then sized 8 c doubleElement
  else if op == 0xa6 then sized 1 c (.recall ∘ requestSlot)
  else if op < 0xc8 then (.reserved, c, false)
  else if op < 0xcc then counted (n - 0xc8 + 1) 4 c fun bs => .token (.floats (singles bs))
  else if op == 0xcc then sized 1 c (.define ∘ requestSlot)
  else if op == 0xcd then sized 1 c (.define ∘ stringSlot)
  else if op == 0xce then sized 2 c (.define ∘ stringSlot)
  else if op == 0xcf then sized 1 c (.recall ∘ stringSlot)
  else if op == 0xd0 then sized 2 c (.recall ∘ stringSlot)
  else (.reserved, c, false)

/-! All elements of a stream. -/

def elementAt (b : UInt8) (c : Cursor) : Element × Cursor × Bool :=
  if 0x80 ≤ b then binary b c
  else if b == 91 then (.token .opening, c, false)
  else if b == 93 then (.token .closing, c, false)
  else if b == 35 then comment c
  else if b == 34 then
    match stringBody .plain [] c.line c.rest with
    | (some bytes, c) => (stringElement bytes, c, false)
    | (none, c) => (.fault .unterminated, c, true)
  else if startsNumber b then
    let (text, c) := numberText b c
    (number (ascii text), c, c.atEnd)
  else if startsName b then
    let (text, c) := c.textWhile continuesName
    (.token (.name (String.ofList (ascii (b :: text)))), c, c.atEnd)
  else (.fault (.unexpected (Char.ofNat b.toNat)), c, false)

def scan? (c : Cursor) : Option Scan :=
  let (_, c) := c.textWhile isBlank
  match c.rest with
  | [] => none
  | b :: rest =>
    let (element, after, cut) := elementAt b ⟨rest, c.line⟩
    some ⟨element, c.line, after, cut⟩

/-- At most `fuel` elements; `done` are those before, the latest first. -/
def scanAll : Nat → List Scan → Cursor → List Scan
  | 0, done, _ => done.reverse
  | fuel + 1, done, c => match scan? c with
    | none => done.reverse
    | some s => scanAll fuel (s :: done) s.after

/-- Every element takes a byte at least, so there are no more than bytes. -/
def scans (bytes : Bytes) : List Scan := scanAll bytes.length [] (.start bytes)

def lastLine (bytes : Bytes) : Nat :=
  let c := ((scans bytes).getLast?.map Scan.after).getD (.start bytes)
  c.line + newlines c.rest

structure Source where
  bytes : Bytes
  failure : Option String
  deriving DecidableEq, Repr

/-- A failure takes the place of an element that it cuts short, and else comes after the last. -/
def Source.scans (s : Source) : List Scan :=
  let all := Stream.scans s.bytes
  match s.failure with
  | none => all
  | some reason =>
    let line := lastLine s.bytes
    all.filter (!·.cut) ++ [⟨.fault (.unreadable reason), line, ⟨[], line⟩, true⟩]

end SceneStream.Stream
