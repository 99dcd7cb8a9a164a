import Stencil.Text.Visible

/-! Quoted text: double quotes around it, a backslash before quotes and backslashes, short escapes
for NUL, tab, newline and carriage return, and code points in hexadecimal for all else that does not
show. -/

namespace Stencil.Text

/-- The characters that stand for `c` between the quotes. -/
def escape (c : Char) : List Char :=
  if c = '\x00' then ['\\', '0']
  else if c = '\t' then ['\\', 't']
  else if c = '\n' then ['\\', 'n']
  else if c = '\r' then ['\\', 'r']
  else if c = '"' then ['\\', '"']
  else if c = '\\' then ['\\', '\\']
  else if isVisible c then [c]
  else ['\\', 'u', '\x7b'] ++ Nat.toDigits 16 c.toNat ++ ['\x7d']

def quote (s : String) : String :=
  String.ofList ('"' :: s.toList.flatMap escape ++ ['"'])

end Stencil.Text
