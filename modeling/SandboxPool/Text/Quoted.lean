import SandboxPool.Json.Printer

/-!
# Quoted text for people

A text in quotes as it stands in messages: quotes, backslashes and control characters are escaped.
`\x7b` and `\x7d` stand around the number of a control character that has no name.
-/

namespace SandboxPool.Text

/-- The hexadecimal digits of a number, at least one. -/
def hexText (n : Nat) : List Char :=
  if n < 16 then [Json.lowerHexDigit n]
  else hexText (n / 16) ++ [Json.lowerHexDigit (n % 16)]

/-- The character controls something and is not shown. -/
def isControl (c : Char) : Bool := c.toNat < 0x20 || (0x7F ≤ c.toNat && c.toNat < 0xA0)

/-- One character inside a quoted text. -/
def quoteChar (c : Char) : List Char :=
  if c.toNat = 0x22 then ['\\', '\"']
  else if c.toNat = 0x5C then ['\\', '\\']
  else if c.toNat = 0 then ['\\', '0']
  else if c.toNat = 0x09 then ['\\', 't']
  else if c.toNat = 0x0A then ['\\', 'n']
  else if c.toNat = 0x0D then ['\\', 'r']
  else if isControl c then '\\' :: 'u' :: '\x7b' :: hexText c.toNat ++ ['\x7d']
  else [c]

def quoted (s : String) : String :=
  String.ofList ('\"' :: s.toList.flatMap quoteChar ++ ['\"'])

/-- A printable ASCII character other than a quote and a backslash stands for itself. -/
theorem quoteChar_eq_self {c : Char} (low : 0x20 ≤ c.toNat) (high : c.toNat < 0x7F)
    (quote : c.toNat ≠ 0x22) (backslash : c.toNat ≠ 0x5C) : quoteChar c = [c] := by
  unfold quoteChar isControl
  simp only [Bool.or_eq_true, Bool.and_eq_true, decide_eq_true_eq]
  rw [if_neg (by omega), if_neg (by omega), if_neg (by omega), if_neg (by omega),
    if_neg (by omega), if_neg (by omega), if_neg (by omega)]

end SandboxPool.Text
