import SceneStream.Request.Basic
import SceneStream.Stream.Cursor
import SceneStream.Text.Utf8

/-! Writing a stream. As text, a request is one line; in binary, its name and longer strings are
defined at their first use and recalled by a short form from then on. Comments stay text. -/
namespace SceneStream.Stream

inductive Encoding where
  | text | binary
  deriving DecidableEq, Repr

def bytesOf (s : String) : Bytes := Text.Utf8.encode s

/-! Text. -/

def escapeOctal (n : Nat) : List Char :=
  ['\\', Nat.digitChar (n / 64 % 8), Nat.digitChar (n / 8 % 8), Nat.digitChar (n % 8)]

def escapeChar (c : Char) : List Char :=
  if c == '"' then ['\\', '"']
  else if c == '\\' then ['\\', '\\']
  else if c == '\n' then ['\\', 'n']
  else if c == '\r' then ['\\', 'r']
  else if c == '\t' then ['\\', 't']
  else if c.toNat < 0x20 || c.toNat == 0x7f then escapeOctal c.toNat
  else [c]

def quote (s : String) : String := String.ofList ('"' :: s.toList.flatMap escapeChar ++ ['"'])

/-- Text has no infinities and nothing that is not a number; they become zero. -/
def floatText (x : Single) : String := if x.isFinite then x.streamText else "0"

def valueTexts : Values → List String
  | .integers l => l.map fun n => toString n.toInt
  | .floats l => l.map floatText
  | .strings l => l.map quote

def paramText (p : Parameter) : String :=
  let body := " ".intercalate (valueTexts p.values)
  if p.isArray then "[" ++ body ++ "]" else body

def requestText (r : Request) : String :=
  r.kind.name ++ "".intercalate (r.params.map fun p => " " ++ paramText p) ++ "\n"

def commentText (c : Comment) : String := (if c.structured then "##" else "#") ++ c.text ++ "\n"

/-! Binary. -/

/-- What has been defined so far: request names in the order of their codes, strings by their ids.
-/
structure Writer where
  names : List RequestKind
  strings : List (String × Nat)
  deriving DecidableEq

namespace Writer

def start : Writer := ⟨[], []⟩

def lengthWidth (n : Nat) : Nat :=
  if n < 0x100 then 1 else if n < 0x10000 then 2 else if n < 0x1000000 then 3 else 4

def lengthBytes (op : UInt8) (n : Nat) : Bytes :=
  let width := lengthWidth n
  (op + UInt8.ofNat (width - 1)) :: bigEndianBytes width n

def literal (s : String) : Bytes :=
  let bytes := bytesOf s
  if bytes.length < 16 then (0x90 + UInt8.ofNat bytes.length) :: bytes
  else lengthBytes 0xa0 bytes.length ++ bytes

def integerWidth (n : Int) : Nat :=
  if -0x80 ≤ n && n < 0x80 then 1
  else if -0x8000 ≤ n && n < 0x8000 then 2
  else if -0x800000 ≤ n && n < 0x800000 then 3
  else 4

def integer (n : Int32) : Bytes :=
  let width := integerWidth n.toInt
  (0x80 + UInt8.ofNat (width - 1)) :: bigEndianBytes width n.toUInt32.toNat

def floatPayload (l : List Single) : Bytes := l.flatMap Single.bigEndian

/-- Codes for requests are one byte; after the last one names are written out. -/
def requestName (w : Writer) (k : RequestKind) : Bytes × Writer :=
  match w.names.idxOf? k with
  | some code => ([0xa6, UInt8.ofNat code], w)
  | none =>
    let code := UInt8.ofNat w.names.length
    if w.names.length < 0x100 then
      ([0xcc, code] ++ literal k.name ++ [0xa6, code], { w with names := w.names ++ [k] })
    else (bytesOf k.name ++ [32], w)

def stringId (short long : UInt8) (id : Nat) : Bytes :=
  if id < 0x100 then [short, UInt8.ofNat id] else long :: bigEndianBytes 2 id

/-- Strings of two bytes or more are defined once, as long as there are ids. -/
def string (w : Writer) (s : String) : Bytes × Writer :=
  if (bytesOf s).length < 2 then (literal s, w) else
  match w.strings.lookup s with
  | some id => (stringId 0xcf 0xd0 id, w)
  | none =>
    let id := w.strings.length
    if id < 0x10000 then
      (stringId 0xcd 0xce id ++ literal s ++ stringId 0xcf 0xd0 id,
        { w with strings := (s, id) :: w.strings })
    else (literal s, w)

def each {α : Type} (f : Writer → α → Bytes × Writer) (w : Writer) : List α → Bytes × Writer
  | [] => ([], w)
  | x :: rest =>
    let (bytes, w) := f w x
    let (tail, w) := each f w rest
    (bytes ++ tail, w)

def bracketed (isArray : Bool) (body : Bytes) : Bytes :=
  if isArray then [91] ++ body ++ [93] else body

def param (w : Writer) (p : Parameter) : Bytes × Writer :=
  match p.values with
  | .floats l =>
    if p.isArray then (lengthBytes 0xc8 l.length ++ floatPayload l, w)
    else (l.flatMap fun x => 0xa4 :: x.bigEndian, w)
  | .integers l => (bracketed p.isArray (l.flatMap integer), w)
  | .strings l =>
    let (body, w) := each string w l
    (bracketed p.isArray body, w)

def request (w : Writer) (r : Request) : Bytes × Writer :=
  let (head, w) := w.requestName r.kind
  let (body, w) := each param w r.params
  (head ++ body, w)

def entry (e : Encoding) (w : Writer) (x : Entry) : Bytes × Writer :=
  match x, e with
  | .comment c, _ => (bytesOf (commentText c), w)
  | .request r, .text => (bytesOf (requestText r), w)
  | .request r, .binary => w.request r

end Writer

def encode (e : Encoding) (l : List Entry) : Bytes := (Writer.each (Writer.entry e) .start l).1

end SceneStream.Stream
