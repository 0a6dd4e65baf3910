/-!
# Form encoding and percent decoding

* `formEncode` writes bytes the way a web form does: letters, digits and `*-._` stand for
  themselves, a space becomes `+`, and every other byte `%XX`.
* `percentDecode` reads a path segment: only `%XX` is decoded, so a `+` stays a `+`.
-/

namespace SandboxPool.Text

def upperHexDigit (n : Nat) : Char :=
  if n < 10 then Char.ofNat (48 + n) else Char.ofNat (55 + n)

/-- The byte stands for itself in a form. -/
def isFormPlain (b : UInt8) : Bool :=
  (48 ≤ b && b ≤ 57) || (65 ≤ b && b ≤ 90) || (97 ≤ b && b ≤ 122)
    || b == 42 || b == 45 || b == 46 || b == 95

/-- The form of one byte. -/
def formEncodeByte (b : UInt8) : List Char :=
  if isFormPlain b then [Char.ofNat b.toNat]
  else if b == 32 then ['+']
  else ['%', upperHexDigit (b.toNat / 16), upperHexDigit (b.toNat % 16)]

def formEncodeBytes (bytes : List UInt8) : List Char := bytes.flatMap formEncodeByte

def formEncode (s : String) : String := String.ofList (formEncodeBytes s.toUTF8.data.toList)

/-- The value of a hexadecimal digit of either case. -/
def hexValue? (c : Char) : Option Nat :=
  let n := c.toNat
  if 48 ≤ n && n ≤ 57 then some (n - 48)
  else if 65 ≤ n && n ≤ 70 then some (n - 55)
  else if 97 ≤ n && n ≤ 102 then some (n - 87)
  else none

/-- The bytes that a path segment of ASCII characters stands for: `%XX` is a byte, any other
character itself. -/
def percentDecode : List Char → List UInt8
  | [] => []
  | '%' :: a :: b :: rest =>
    match hexValue? a, hexValue? b with
    | some high, some low => UInt8.ofNat (high * 16 + low) :: percentDecode rest
    | _, _ => 37 :: percentDecode (a :: b :: rest)
  | c :: rest => UInt8.ofNat c.toNat :: percentDecode rest

end SandboxPool.Text
