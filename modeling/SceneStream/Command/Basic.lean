import SceneStream.Files
import SceneStream.Problem

/-! What a command leaves behind, and what may be wrong with how it was called. -/
namespace SceneStream.Command

structure Report where
  output : String
  errors : String
  deriving DecidableEq

structure Outcome extends Report where
  files : Files
  deriving DecidableEq

inductive Fault where
  | unknownCommand (name : String)
  | missing (what : String)
  | missingValue (name : String)
  | badResolution (text : String)
  | unknownOption (name : String)
  | noEncoding
  | wouldOverwrite (path : String)
  | cannotOpen (path : String) (f : FileFault)
  | cannotCreate (path : String) (f : FileFault)
  | unreadable (p : Problem)
  /-- Not told by the command, which has ended. -/
  | crash
  deriving DecidableEq, Repr

/-- A command at work on the files. What it has done to them stays done if it fails then. -/
abbrev Act := ExceptT Fault (StateM Files)

def look {α : Type} (f : Files → Except Fault α) : Act α := fun files => (f files, files)

def usage : String := "\n".intercalate [
  "rib_cli (rib-engine)", "",
  "USAGE:",
  "  rib_cli stats <file> [options]",
  "  rib_cli convert <in> <out> (--ascii | --binary) [--overwrite]", "",
  "OPTIONS (stats):",
  "  --tess <u> <v>      Default tessellation resolution (default 16 16)",
  "  --strips            Emit triangle strips instead of triangles",
  "  --search <dir>      Directory searched by ReadArchive",
  "  --errors            Print every reported error",
  "  -h, --help          Show this help", ""]

def ticked (s : String) : String := "\x60" ++ s ++ "\x60"

def Fault.message : Fault → String
  | unknownCommand name => "unknown command " ++ ticked name ++ "\n\n" ++ usage
  | missing what => s!"missing {what} file"
  | missingValue name => s!"missing value for {name}"
  | badResolution text => "invalid tessellation resolution " ++ ticked text
  | unknownOption name => "unknown option " ++ ticked name
  | noEncoding => "choose an encoding with --ascii or --binary"
  | wouldOverwrite path => s!"refusing to overwrite existing file {path} (use --overwrite)"
  | cannotOpen path f => s!"open {path}: {f.message}"
  | cannotCreate path f => s!"create {path}: {f.message}"
  | unreadable p => p.describe
  | crash => ""

def lines (l : List String) : String := String.join (l.map (· ++ "\n"))

end SceneStream.Command
