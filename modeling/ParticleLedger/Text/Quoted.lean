import ParticleLedger.Text.Printable

/-!
# Quoted text

Diagnostic texts show a string between double quotes. Quotes and backslashes are written with a
backslash, the common control characters by a letter, and every other character that a reader could
not see by its code point.
-/

namespace ParticleLedger.Text

/-- The digits of a number in base sixteen, without leading zeros. -/
def hexNumber (n : Nat) : String :=
  String.ofList (Nat.toDigits 16 n)

/-- How one character is written between quotes. -/
def quotedChar (c : Char) : String :=
  match c with
  | '\x00' => "\\0"
  | '\t' => "\\t"
  | '\n' => "\\n"
  | '\r' => "\\r"
  | '"' => "\\\""
  | '\\' => "\\\\"
  | c => if isPrintable c then c.toString else "\\u\x7b" ++ hexNumber c.toNat ++ "\x7d"

/-- A text between quotes. -/
def quoted (s : String) : String :=
  "\"" ++ String.join (s.toList.map quotedChar) ++ "\""

end ParticleLedger.Text
