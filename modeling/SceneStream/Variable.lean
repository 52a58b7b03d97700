import SceneStream.Declaration.Dictionary
import SceneStream.Named
import SceneStream.Request.Args
import SceneStream.Variable.Counts

/-! Variables of primitives. Each token of a parameter list is bound to its declaration, and its
values have to be exactly as many as the primitive has elements of that storage class. What belongs
to one face is picked out of the whole afterwards. -/
namespace SceneStream

structure Variable where
  storage : StorageClass
  kind : TypeKind
  width : Nat
  values : Values
  deriving DecidableEq

structure FaceSelection where
  uniform : Nat
  varying : List Nat
  vertex : List Nat
  faceVarying : Nat × Nat
  faceVertex : Nat × Nat
  deriving DecidableEq, Repr

namespace Variable

def count (v : Variable) : Nat := v.values.length / v.width

def constant (v : Variable) : Values := v.values.slice 0 v.width

def uniform (v : Variable) (face : Nat) : Values :=
  if face < v.count then v.values.slice (face * v.width) v.width else v.values.emptyLike

/-- Elements by index, in the order of the indices; an index that has no element gives nothing. -/
def gather (v : Variable) (indices : List Nat) : Values :=
  let indices := indices.filter (· < v.count)
  let pick {β : Type} (l : List β) : List β :=
    indices.flatMap fun i => (l.drop (i * v.width)).take v.width
  match v.values with
  | .integers l => .integers (pick l)
  | .floats l => .floats (pick l)
  | .strings l => .strings (pick l)

def range (v : Variable) (offset count : Nat) : Values :=
  v.values.slice (offset * v.width) (min count (v.count - offset) * v.width)

def doubles (v : Variable) : List Float := v.values.doubles

def select (v : Variable) (s : FaceSelection) : Variable :=
  { v with values := match v.storage with
    | .constant => v.constant
    | .uniform => v.uniform s.uniform
    | .varying => v.gather s.varying
    | .vertex => v.gather s.vertex
    | .faceVarying => v.range s.faceVarying.1 s.faceVarying.2
    | .faceVertex => v.range s.faceVertex.1 s.faceVertex.2 }

end Variable

abbrev Variables := Named Variable

def Variables.select (vars : Variables) (s : FaceSelection) : Variables :=
  vars.map fun (name, v) => (name, v.select s)

/-- Work that may enter declarations; what was entered stays when the work fails. -/
abbrev Declaring := ExceptT Problem (StateM Dictionary)

namespace Declaring

def lift {α : Type} (x : Except Problem α) : Declaring α := ExceptT.mk (pure x)

def resolve (token : String) : Declaring Declaration := do
  let (d, _, x) ← lift ((← get).resolve token)
  set d
  return x

end Declaring

namespace Variables

def check (x : Declaration) (width : Nat) (counts : ValueCounts) (p : Parameter) :
    Except Problem Variable :=
  let expected := counts.get x.storage * width
  match p.values.convert? x.basic with
  | none => .error (.of .consistency
      s!"parameter \"{x.name}\" expects {x.basic.name} values, found {p.basic.name}")
  | some values =>
    if values.length = expected then .ok ⟨x.storage, x.kind, width, values⟩
    else
      let type := s!"{x.storage.name} {x.kind.name}"
      .error (.of .consistency
        s!"parameter \"{x.name}\" ({type}) needs {expected} values, found {values.length}")

/-- One fault rejects the whole list; of two values with one name the later holds. -/
def bind (counts : ValueCounts) (list : List TokenValue) : Declaring Variables :=
  list.foldlM (fun vars t => do
    let x ← Declaring.resolve t.token
    let v ← Declaring.lift (check x ((← get).width x) counts t.value)
    return vars.insert x.name v) []

end Variables
end SceneStream
