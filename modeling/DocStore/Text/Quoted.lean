import DocStore.Text.Extender
import DocStore.Text.Unprintable

/-!
# Quoted text

Error texts quote the names they mention. A quote and a backslash are escaped, line ends, tabs and
NUL have short forms, and whatever would be invisible or would join the quotes, unprintable
characters and combining marks, is written by its code point.
-/

namespace DocStore.Text

def hexNumber (n : Nat) : List Char := Nat.toDigits 16 n

def escaped (c : Char) : List Char :=
  if c = '"' then ['\\', '"']
  else if c = '\\' then ['\\', '\\']
  else if c = '\n' then ['\\', 'n']
  else if c = '\t' then ['\\', 't']
  else if c = '\r' then ['\\', 'r']
  else if c = '\x00' then ['\\', '0']
  else if isExtender c || isUnprintable c then
    ['\\', 'u', '\x7b'] ++ hexNumber c.toNat ++ ['\x7d']
  else [c]

def quoted (s : String) : String :=
  String.ofList ('"' :: s.toList.flatMap escaped ++ ['"'])

end DocStore.Text
