import WriteAhead.Bytes
import WriteAhead.Text.Unprintable

/-!
Text in double quotes, with what cannot be shown written as an escape.
-/

namespace WriteAhead.Quoted

def hexDigits (n : Nat) : List Char :=
  Nat.toDigits 16 n

def escape (c : Char) : List Char :=
  match c with
  | '"' => ['\\', '"']
  | '\\' => ['\\', '\\']
  | '\n' => ['\\', 'n']
  | '\r' => ['\\', 'r']
  | '\t' => ['\\', 't']
  | '\x00' => ['\\', '0']
  | _ => if isUnprintable c || isCombining c then ['\\', 'u', '\x7b'] ++ hexDigits c.toNat ++ ['\x7d'] else [c]

end WriteAhead.Quoted

namespace WriteAhead

/-- Quotes `s`: a quote, a backslash and control characters are escaped, and so are characters
that do not print or that combine with the one before. -/
def quoted (s : String) : String :=
  String.ofList ('"' :: s.toList.flatMap Quoted.escape ++ ['"'])

end WriteAhead
