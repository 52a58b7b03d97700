import SceneStream.Problem
import SceneStream.Text.Blank
import SceneStream.Value

/-! Declarations of variables: storage class, type and array size, and the text that gives them,
`[class] type[n]`, with a name at the end when it stands inside a parameter list. -/
namespace SceneStream

inductive StorageClass where
  | constant | uniform | varying | vertex | faceVarying | faceVertex
  deriving DecidableEq, Repr

namespace StorageClass

def all : List StorageClass := [constant, uniform, varying, vertex, faceVarying, faceVertex]

def name : StorageClass → String
  | constant => "constant"
  | uniform => "uniform"
  | varying => "varying"
  | vertex => "vertex"
  | faceVarying => "facevarying"
  | faceVertex => "facevertex"

def ofName? (s : String) : Option StorageClass := all.find? (·.name == s)

end StorageClass

inductive TypeKind where
  | float | integer | string | point | vector | normal | hpoint | color | matrix
  deriving DecidableEq, Repr

namespace TypeKind

def all : List TypeKind :=
  [float, integer, string, point, vector, normal, hpoint, color, matrix]

def name : TypeKind → String
  | float => "float"
  | integer => "integer"
  | string => "string"
  | point => "point"
  | vector => "vector"
  | normal => "normal"
  | hpoint => "hpoint"
  | color => "color"
  | matrix => "matrix"

def ofName? (s : String) : Option TypeKind :=
  if s == "int" then some integer else all.find? (·.name == s)

def basic : TypeKind → BasicType
  | integer => .integer
  | string => .string
  | _ => .float

/-- Values in one element; a color has one for each color sample. -/
def components (colorSamples : Nat) : TypeKind → Nat
  | float | integer | string => 1
  | point | vector | normal => 3
  | hpoint => 4
  | color => colorSamples
  | matrix => 16

end TypeKind

structure Declaration where
  name : String
  storage : StorageClass
  kind : TypeKind
  size : Nat
  /-- Made by a token that carries its own declaration. -/
  isInline : Bool
  deriving DecidableEq, Repr

namespace Declaration

def width (d : Declaration) (colorSamples : Nat) : Nat := d.kind.components colorSamples * d.size
def basic (d : Declaration) : BasicType := d.kind.basic

structure Written where
  storage : StorageClass
  kind : TypeKind
  size : Nat
  name : Option String
  deriving DecidableEq, Repr

def isNameStart (c : Char) : Bool := c.isAlpha || c == '_'
def isNameRest (c : Char) : Bool := c.isAlphanum || c == '_' || c == '.' || c == ':'
def skip (cs : List Char) : List Char := cs.dropWhile Text.isBlank
def isDigit (c : Char) : Bool := c.isDigit

/-- Array sizes are positive and fit a machine word. -/
def size? (ds : List Char) : Option Nat :=
  let n := Number.digitsValue ds
  if ds.isEmpty || n == 0 || 2 ^ 64 ≤ n then none else some n

def bracket? : List Char → Option (Nat × List Char)
  | '[' :: cs =>
    let cs := skip cs
    match skip (cs.dropWhile isDigit) with
    | ']' :: rest => (size? (cs.takeWhile isDigit)).map (·, rest)
    | _ => none
  | cs => some (1, cs)

def ending? : List Char → Option (Option String)
  | [] => some none
  | b :: cs =>
    if !Text.isBlank b then none else
    match skip cs with
    | [] => some none
    | c :: rest =>
      let tail := rest.dropWhile isNameRest
      if isNameStart c && (skip tail).isEmpty then
        some (some (String.ofList (c :: rest.takeWhile isNameRest)))
      else none

def typed? (storage : StorageClass) (cs : List Char) : Option Written := do
  let kind ← TypeKind.ofName? (String.ofList (cs.takeWhile Char.isAlpha))
  let rest := cs.dropWhile Char.isAlpha
  let (size, rest) ← bracket? (match skip rest with
    | '[' :: r => '[' :: r
    | _ => rest)
  let name ← ending? rest
  some ⟨storage, kind, size, name⟩

def written? (text : String) : Option Written :=
  let cs := skip text.toList
  let rest := cs.dropWhile Char.isAlpha
  match StorageClass.ofName? (String.ofList (cs.takeWhile Char.isAlpha)), rest with
  | some storage, b :: _ => if Text.isBlank b then typed? storage (skip rest) else none
  | some _, [] => none
  | none, _ => typed? .uniform cs

def ofToken? (token : String) : Option Declaration := do
  let w ← written? token
  let name ← w.name
  some ⟨name, w.storage, w.kind, w.size, true⟩

def ofText (name text : String) : Except Problem Declaration :=
  let name := Text.trimBlank name
  if name.isEmpty then .error (.of .badToken "declaration without a name") else
  match written? text with
  | none => .error (.of .syntaxFault s!"invalid declaration \"{text}\" for \"{name}\"")
  | some w =>
    if w.name.isSome then
      .error (.of .syntaxFault s!"declaration \"{text}\" for \"{name}\" carries its own name")
    else .ok ⟨name, w.storage, w.kind, w.size, false⟩

end Declaration
end SceneStream
