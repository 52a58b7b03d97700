import SceneStream.Stream.Token

/-! Files by path, as a scene and the command line see them. A path is followed part by part from
the root or from the working directory; above the root there is only the root again. -/
namespace SceneStream

inductive FileFault where
  | missing | notDirectory | isDirectory | nameTooLong | badName
  deriving DecidableEq, Repr

def FileFault.message : FileFault → String
  | missing => "No such file or directory (os error 2)"
  | notDirectory => "Not a directory (os error 20)"
  | isDirectory => "Is a directory (os error 21)"
  | nameTooLong => "File name too long (os error 36)"
  | badName => "file name contained an unexpected NUL byte"

abbrev Place := List String

structure Files where
  current : Place
  /-- Directories that are there whether they hold files or not. -/
  folders : List Place
  contents : List (Place × Stream.Bytes)
  deriving DecidableEq

namespace Files

def bare (current : Place) : Files := ⟨current, [], []⟩

def contents? (fs : Files) (p : Place) : Option Stream.Bytes := fs.contents.lookup p

def isDirectory (fs : Files) (p : Place) : Bool :=
  p.isPrefixOf fs.current || fs.folders.any p.isPrefixOf ||
    fs.contents.any fun (q, _) => p.isPrefixOf q && p != q

def write (fs : Files) (p : Place) (bytes : Stream.Bytes) : Files :=
  { fs with contents := (p, bytes) :: fs.contents.filter (·.1 != p) }

/-- A slash at the end leaves an empty part. -/
def parts (path : String) : List String := path.splitOn "/"

/-- One part further. Empty parts and a single dot stay where they are; none leads out of a file. -/
def step (fs : Files) (p : Place) (part : String) : Except FileFault Place :=
  if !fs.isDirectory p then .error (if (fs.contents? p).isSome then .notDirectory else .missing)
  else if part = "" ∨ part = "." then .ok p
  else if part = ".." then .ok p.dropLast
  else if 255 < part.utf8ByteSize then .error .nameTooLong
  else .ok (p ++ [part])

def startOf (fs : Files) (path : String) : Except FileFault Place :=
  if path.toList.contains '\x00' then .error .badName
  else if path.isEmpty then .error .missing
  else if 4096 ≤ path.utf8ByteSize then .error .nameTooLong
  else .ok (if path.startsWith "/" then [] else fs.current)

/-- Where a path leads. There need not be anything at its last part. -/
def locate (fs : Files) (path : String) : Except FileFault Place := do
  (parts path).foldlM fs.step (← fs.startOf path)

/-- A path opened for reading. A directory opens, and fails when it is read. -/
def openSource (fs : Files) (path : String) : Except FileFault Stream.Source := do
  let p ← fs.locate path
  match fs.contents? p with
  | some bytes => return ⟨bytes, none⟩
  | none =>
    if fs.isDirectory p then return ⟨[], some FileFault.isDirectory.message⟩ else throw .missing

def find (fs : Files) (path : String) : Except FileFault Place := do
  let p ← fs.locate path
  if (fs.contents? p).isSome ∨ fs.isDirectory p then return p else throw .missing

def sourceAt (fs : Files) (p : Place) : Stream.Source :=
  match fs.contents? p with
  | some bytes => ⟨bytes, none⟩
  | none => ⟨[], some FileFault.isDirectory.message⟩

def pathExists (fs : Files) (path : String) : Bool := (fs.openSource path).isOk

def create (fs : Files) (path : String) : Except FileFault (Files × Place) := do
  let all := parts path
  let named := (all.reverse.dropWhile (· = "")).reverse
  let p ← named.foldlM fs.step (← fs.startOf path)
  if fs.isDirectory p ∨ named.length < all.length then throw .isDirectory
  return (fs.write p [], p)

/-- A name inside a directory; one that starts at the root stays as it is. -/
def join (directory name : String) : String :=
  if name.startsWith "/" then name
  else if directory.isEmpty || directory.endsWith "/" then directory ++ name
  else directory ++ "/" ++ name

end Files
end SceneStream
