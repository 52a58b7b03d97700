import SceneStream.Text.Hidden

/-! Names and characters inside messages: quoted, with what would not show written as an escape. -/
namespace SceneStream.Text

def escapeHidden (c : Char) : List Char :=
  "\\u\x7b".toList ++ Nat.toDigits 16 c.toNat ++ ['\x7d']

/-- Only the quote that encloses the text is escaped. -/
def escaped (quote c : Char) : List Char :=
  if c == '\t' then ['\\', 't']
  else if c == '\n' then ['\\', 'n']
  else if c == '\r' then ['\\', 'r']
  else if c == '\x00' then ['\\', '0']
  else if c == '\\' || c == quote then ['\\', c]
  else if isHidden c then escapeHidden c
  else [c]

def quotedChar (c : Char) : String := String.ofList ('\'' :: escaped '\'' c ++ ['\''])

def quoted (s : String) : String :=
  String.ofList ('"' :: s.toList.flatMap (escaped '"') ++ ['"'])

end SceneStream.Text
