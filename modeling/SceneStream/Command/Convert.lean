import SceneStream.Command.Basic
import SceneStream.Stream.Encoding
import SceneStream.Stream.Item

/-! A stream written again in an encoding of choice. -/
namespace SceneStream.Command

structure ConvertOptions where
  encoding : Option Stream.Encoding
  overwrites : Bool
  deriving DecidableEq

def convertOptions (o : ConvertOptions) : List String → Except Fault ConvertOptions
  | [] => .ok o
  | "--ascii" :: rest => convertOptions { o with encoding := some .text } rest
  | "--binary" :: rest => convertOptions { o with encoding := some .binary } rest
  | "--overwrite" :: rest => convertOptions { o with overwrites := true } rest
  | name :: _ => .error (.unknownOption name)

def entries (items : List Stream.Item) : List Entry := items.filterMap Except.toOption

def problem? : Stream.Item → Option Problem
  | .error p => some p
  | .ok _ => none

/-- What is there already is kept unless asked otherwise. -/
def ensureWritable (files : Files) (path : String) (overwrites : Bool) : Except Fault Unit :=
  if files.pathExists path ∧ !overwrites then .error (.wouldOverwrite path) else .ok ()

/-- The input is opened before the output is emptied, and read after it. -/
def convertFile (input output : String) (encoding : Stream.Encoding) : Act Report := do
  let found ← look fun files => (files.find input).mapError (.cannotOpen input)
  let (emptied, place) ← look fun files => (files.create output).mapError (.cannotCreate output)
  set emptied
  let items := (emptied.sourceAt found).items
  set (emptied.write place (Stream.encode encoding (entries items)))
  let problems := items.filterMap problem?
  let requests := (items.filterMap Stream.request?).length
  let out := s!"wrote {requests} requests to {output} ({problems.length} errors skipped)"
  return ⟨lines [out], lines (problems.map fun p => s!"{input}: {p.describe}")⟩

def convert : List String → Act Report
  | [] => throw (.missing "input")
  | [_] => throw (.missing "output")
  | input :: output :: args => do
    let o ← look fun _ => convertOptions ⟨none, false⟩ args
    let some encoding := o.encoding | throw .noEncoding
    look (ensureWritable · output o.overwrites)
    convertFile input output encoding

end SceneStream.Command
