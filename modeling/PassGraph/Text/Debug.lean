import PassGraph.Text.Unprintable

/-!
# Quoting for messages

A string as it is quoted inside a message: what would be lost or misread in a line of text is
spelled out.

## Main definitions

* `Text.debug` — a string with quotes, unprintable characters spelled out
-/

namespace PassGraph.Text

/-- A character of a quoted string in a message. -/
def debugChar (c : Char) : List Char :=
  if c = '\x00' then ['\\', '0']
  else if c = '\t' then ['\\', 't']
  else if c = '\n' then ['\\', 'n']
  else if c = '\r' then ['\\', 'r']
  else if c = '"' then ['\\', '"']
  else if c = '\\' then ['\\', '\\']
  else if isUnprintable c then ['\\', 'u', '\x7b'] ++ Nat.toDigits 16 c.toNat ++ ['\x7d']
  else [c]

/-- A string with quotes, unprintable characters spelled out by their code points. -/
def debug (s : String) : String :=
  String.ofList ('"' :: s.toList.flatMap debugChar ++ ['"'])

end PassGraph.Text
