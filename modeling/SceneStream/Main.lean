import SceneStream.Command
import SceneStream.Command.Reach

/-! The command line at work: the files a command reaches are loaded before it runs, and those it
has changed are stored after it. -/
namespace SceneStream.Main

def absolute (p : Place) : String := "/" ++ "/".intercalate p

def steps (path : String) : List String :=
  let parts := Files.parts path
  (List.range parts.length).map fun n => "/".intercalate (parts.take (n + 1))

def look (files : Files) (p : Place) : IO Files := do
  try
    let bytes ← IO.FS.readBinFile (absolute p)
    return files.write p bytes.toList
  catch
    | .inappropriateType _ 21 _ => return { files with folders := p :: files.folders }
    | _ => return files

def follow (files : Files) (path : String) : IO Files :=
  (steps path).foldlM (fun files step => match files.locate step with
    | .ok p => look files p
    | .error _ => return files) files

partial def gather (args seen : List String) (files : Files) : IO Files := do
  let new := ((Command.reach files args).filter (!seen.contains ·)).eraseDups
  if new.isEmpty then return files
  gather args (seen ++ new) (← new.foldlM follow files)

def store (before : Files) (p : Place) (bytes : Stream.Bytes) : IO Unit := do
  if before.contents? p != some bytes then IO.FS.writeBinFile (absolute p) ⟨bytes.toArray⟩

end SceneStream.Main

open SceneStream in
def main (args : List String) : IO UInt32 := do
  let current := (Files.parts (← IO.currentDir).toString).filter (!·.isEmpty)
  let files ← Main.gather args [] (.bare current)
  let (status, o) := Command.runToEnd files args
  IO.print o.output
  IO.eprint o.errors
  o.files.contents.forM fun (p, bytes) => Main.store files p bytes
  return UInt32.ofNat status
