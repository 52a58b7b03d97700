import SceneStream.Command.Stats

/-! How far a command reaches: the paths it may look at. Archives are known only from the streams
that ask for them, so with more files known there may be more paths. -/
namespace SceneStream.Command

def archiveName? (r : Request) : Option String :=
  if r.kind = .readArchive then (Args.read r Args.string).toOption else none

def archiveNames (files : Files) : List String :=
  files.contents.flatMap fun (_, bytes) => (Stream.requests bytes).filterMap archiveName?

def reach (files : Files) : List String → List String
  | "stats" :: path :: args => match statsOptions ⟨.default, false⟩ args with
    | .ok (some o) => path :: (archiveNames files).map o.session.archivePath
    | _ => []
  | "convert" :: input :: output :: _ => [input, output]
  | _ => []

end SceneStream.Command
