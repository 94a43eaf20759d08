import HostScript.Text.Printable

/-!
# Quoted text

The quoted form of a string: between double quotes, with a backslash before quotes and backslashes,
short escapes for the usual controls, and the code point of every other character that does not show
as itself.
-/

namespace HostScript.Text

/-- The code point of a character between `\u{` and `}`. -/
def codePointEscape (c : Char) : List Char :=
  ['\\', 'u', '\x7b'] ++ Nat.toDigits 16 c.toNat ++ ['\x7d']

/-- What stands for a character inside quotes. -/
def escaped (c : Char) : List Char :=
  match c with
  | '\x00' => ['\\', '0']
  | '\t' => ['\\', 't']
  | '\r' => ['\\', 'r']
  | '\n' => ['\\', 'n']
  | '\\' => ['\\', '\\']
  | '"' => ['\\', '"']
  | c => if isPlain c then [c] else codePointEscape c

def quoted (s : String) : String :=
  String.ofList ('"' :: s.toList.flatMap escaped ++ ['"'])

end HostScript.Text
