import Crew.Text.Printable

/-!
# Quoted texts

A text between double quotes, for messages that name it: quotes, backslashes and what is not
printable are escaped, everything else stands for itself.
-/

namespace Crew.Text

def hexDigit (n : Nat) : Char :=
  if n < 10 then Char.ofNat (n + 48) else Char.ofNat (n + 87)

def hexadecimal (n : Nat) : String :=
  String.ofList ((Nat.toDigits 16 n).map fun c => c.toLower)

def quoteChar (c : Char) : String :=
  if c = '"' then "\\\"" else if c = '\\' then "\\\\" else if c = '\n' then "\\n"
  else if c = '\r' then "\\r" else if c = '\t' then "\\t" else if c = '\x00' then "\\0"
  else if isPrintable c then c.toString
  else "\\u" ++ "\x7b" ++ hexadecimal c.toNat ++ "\x7d"

def quoted (s : String) : String :=
  "\"" ++ String.join (s.toList.map quoteChar) ++ "\""

end Crew.Text
