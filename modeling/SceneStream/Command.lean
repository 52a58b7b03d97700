import SceneStream.Command.Convert
import SceneStream.Command.Stats

/-! The command line, as a function of its words and of the files there are. -/
namespace SceneStream.Command

def run : List String → Act Report
  | [] | "-h" :: _ | "--help" :: _ | "help" :: _ => return ⟨usage ++ "\n", ""⟩
  | "stats" :: args => stats args
  | "convert" :: args => convert args
  | name :: _ => throw (.unknownCommand name)

def runToEnd (files : Files) (args : List String) : Nat × Outcome :=
  match run args files with
  | (.ok r, after) => (0, ⟨r, after⟩)
  | (.error .crash, after) => (101, ⟨⟨"", ""⟩, after⟩)
  | (.error f, after) => (1, ⟨⟨"", lines [s!"rib_cli error: {f.message}"]⟩, after⟩)

end SceneStream.Command
