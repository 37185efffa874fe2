import ScriptHost.Text.Hex
import ScriptHost.Text.Hidden

/-!
# Quoted text

A text in double quotation marks, with escapes for the quotation mark, the backslash, and everything
that does not show as itself.
-/

namespace ScriptHost.Text.Quoted

/-- A character inside quotation marks. -/
def escape (c : Char) : List Char :=
  if c = '"' then ['\\', '"']
  else if c = '\\' then ['\\', '\\']
  else if c = '\x00' then ['\\', '0']
  else if c = '\t' then ['\\', 't']
  else if c = '\n' then ['\\', 'n']
  else if c = '\r' then ['\\', 'r']
  else if isHidden c then ['\\', 'u', '\x7b'] ++ Hex.digits c.toNat ++ ['\x7d']
  else [c]

/-- A text in quotation marks. -/
def quote (s : String) : String := String.ofList ('"' :: (s.toList.flatMap escape ++ ['"']))

end ScriptHost.Text.Quoted
