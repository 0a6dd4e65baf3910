/-!
# Reading whole numbers

`parseUnsigned? bound s` reads a decimal number of at most `bound`: one or more ASCII digits, with
an optional `+` in front. Leading zeros are allowed, blanks are not.
-/

namespace SandboxPool.Text

def digitValue? (c : Char) : Option Nat :=
  if 48 ≤ c.toNat && c.toNat ≤ 57 then some (c.toNat - 48) else none

/-- The number that `acc` followed by the digits stands for. -/
def readDigits? (acc : Nat) : List Char → Option Nat
  | [] => some acc
  | c :: rest => (digitValue? c).bind fun d => readDigits? (acc * 10 + d) rest

/-- A non-empty sequence of digits, with an optional `+` in front. -/
def readUnsigned? : List Char → Option Nat
  | [] => none
  | ['+'] => none
  | '+' :: rest => readDigits? 0 rest
  | cs => readDigits? 0 cs

/-- The number in the text, if there is one and it does not exceed the bound. -/
def parseUnsigned? (bound : Nat) (s : String) : Option Nat :=
  (readUnsigned? s.toList).filter (· ≤ bound)

def max16 : Nat := 65535

def max64 : Nat := 18446744073709551615

end SandboxPool.Text
