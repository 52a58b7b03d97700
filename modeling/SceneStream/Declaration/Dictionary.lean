import SceneStream.Declaration

/-! The dictionary of a scene. A declaration never moves: declaring a name again makes a new one,
and those who hold the old number keep the old declaration. -/
namespace SceneStream

structure Dictionary where
  /-- Numbered from the end of the list, the latest first. -/
  declared : List Declaration
  /-- The number that each token stands for now, the latest first. -/
  tokens : List (String × Nat)
  colorSamples : Nat
  inside : ∀ t ∈ tokens, t.2 < declared.length
  deriving DecidableEq, Repr

namespace Dictionary

def empty : Dictionary := ⟨[], [], 3, nofun⟩
def size (d : Dictionary) : Nat := d.declared.length
def isEmpty (d : Dictionary) : Bool := d.declared.isEmpty

def insert (d : Dictionary) (token : String) (x : Declaration) : Dictionary where
  declared := x :: d.declared
  tokens := (token, d.size) :: d.tokens
  colorSamples := d.colorSamples
  inside t mem := by
    rcases List.mem_cons.mp mem with rfl | older
    · exact Nat.lt_succ_self d.size
    · exact Nat.lt_succ_of_lt (d.inside t older)

def find? (d : Dictionary) (token : String) : Option Nat := d.tokens.lookup token

def get (d : Dictionary) (n : Nat) (inside : n < d.size) : Declaration :=
  have place : d.size - 1 - n < d.declared.length := Nat.lt_of_le_of_lt (Nat.sub_le _ _)
    (Nat.sub_lt (Nat.zero_lt_of_lt inside) Nat.one_pos)
  d.declared[d.size - 1 - n]

def get? (d : Dictionary) (n : Nat) : Option Declaration :=
  if inside : n < d.size then some (d.get n inside) else none

theorem findInside {d : Dictionary} {token : String} {n : Nat} (found : d.find? token = some n) :
    n < d.size := by
  obtain ⟨_, _, split, _⟩ := List.lookup_eq_some_iff.mp found
  exact d.inside (token, n) (by simp [split])

/-- The dictionary, the number given, and whether the name stood for something before. -/
def declare (d : Dictionary) (name text : String) : Except Problem (Dictionary × Nat × Bool) :=
  (Declaration.ofText name text).map fun x =>
    (d.insert x.name x, d.size, (d.find? x.name).isSome)

def undeclared (token : String) : Problem :=
  .of .badToken s!"parameter \"{token}\" is not declared"

/-- What a token stands for; one that declares itself is entered at its first use. -/
def resolve (d : Dictionary) (token : String) : Except Problem (Dictionary × Nat × Declaration) :=
  match found : d.find? token with
  | some n => .ok (d, n, d.get n (findInside found))
  | none => match Declaration.ofToken? token with
    | some x => .ok (d.insert token x, d.size, x)
    | none => .error (undeclared token)

def width (d : Dictionary) (x : Declaration) : Nat := x.width d.colorSamples

def setColorSamples (d : Dictionary) (samples : Nat) : Except Problem Dictionary :=
  if samples = 0 then .error (.of .range "ColorSamples: sample count must be positive")
  else .ok { d with colorSamples := samples }

def predefined : List (String × StorageClass × TypeKind × Nat) := [
  ("P", .vertex, .point, 1), ("Pz", .vertex, .float, 1), ("Pw", .vertex, .hpoint, 1),
  ("N", .varying, .normal, 1), ("Np", .uniform, .normal, 1),
  ("Cs", .varying, .color, 1), ("Os", .varying, .color, 1),
  ("s", .varying, .float, 1), ("t", .varying, .float, 1), ("st", .varying, .float, 2),
  ("width", .varying, .float, 1), ("constantwidth", .constant, .float, 1),
  ("Ka", .uniform, .float, 1), ("Kd", .uniform, .float, 1), ("Ks", .uniform, .float, 1),
  ("Kr", .uniform, .float, 1), ("roughness", .uniform, .float, 1),
  ("specularcolor", .uniform, .color, 1), ("intensity", .uniform, .float, 1),
  ("lightcolor", .uniform, .color, 1), ("from", .uniform, .point, 1), ("to", .uniform, .point, 1),
  ("coneangle", .uniform, .float, 1), ("conedeltaangle", .uniform, .float, 1),
  ("beamdistribution", .uniform, .float, 1), ("amplitude", .uniform, .float, 1),
  ("mindistance", .uniform, .float, 1), ("maxdistance", .uniform, .float, 1),
  ("background", .uniform, .color, 1), ("distance", .uniform, .float, 1),
  ("texturename", .uniform, .string, 1), ("fov", .uniform, .float, 1),
  ("name", .uniform, .string, 1), ("shadinggroup", .uniform, .string, 1),
  ("sense", .uniform, .string, 1), ("origin", .uniform, .integer, 2)]

def initial : Dictionary :=
  predefined.foldl (fun d (name, storage, kind, size) =>
    d.insert name ⟨name, storage, kind, size, false⟩) empty

end Dictionary
end SceneStream
