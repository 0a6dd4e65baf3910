import SandboxPool.Json.Printer
import SandboxPool.Text.Percent

/-!
# Universally unique identifiers

`Uuid.text` writes the 32 hexadecimal digits in five groups, `Uuid.plain` without the hyphens.
`Uuid.parse?` reads either form in any case, and the grouped one also in braces or behind
`urn:uuid:`.
-/

namespace SandboxPool

/-- An identifier of 128 bits. -/
structure Uuid where
  value : BitVec 128
  deriving Repr, DecidableEq, Inhabited

namespace Uuid

/-- Random bits as an identifier that says that it is random: version 4 of the first variant. -/
def ofRandom (bits : BitVec 128) : Uuid :=
  ⟨bits &&& 0xffffffffffff0fff3fffffffffffffff#128 ||| 0x00000000000040008000000000000000#128⟩

/-- The last `n` hexadecimal digits of a number. -/
def hexDigits : Nat → Nat → List Char
  | 0, _ => []
  | n + 1, value => hexDigits n (value / 16) ++ [Json.lowerHexDigit (value % 16)]

def digits (u : Uuid) : List Char := hexDigits 32 u.value.toNat

def plain (u : Uuid) : String := String.ofList u.digits

/-- The digits in groups of 8, 4, 4, 4 and 12. -/
def text (u : Uuid) : String :=
  let ds := u.digits
  String.ofList (ds.take 8 ++ '-' :: (ds.drop 8).take 4 ++ '-' :: (ds.drop 12).take 4
    ++ '-' :: (ds.drop 16).take 4 ++ '-' :: ds.drop 20)

/-- The number that hexadecimal digits stand for. -/
def hexNumber? (acc : Nat) : List Char → Option Nat
  | [] => some acc
  | c :: rest => (Text.hexValue? c).bind fun d => hexNumber? (acc * 16 + d) rest

def ofPlain? (cs : List Char) : Option Uuid :=
  if cs.length = 32 then (hexNumber? 0 cs).map fun n => ⟨BitVec.ofNat 128 n⟩ else none

def ofGroups? (cs : List Char) : Option Uuid :=
  if cs.length = 36 && cs[8]? == some '-' && cs[13]? == some '-' && cs[18]? == some '-'
      && cs[23]? == some '-' then
    ofPlain? (cs.take 8 ++ (cs.drop 9).take 4 ++ (cs.drop 14).take 4 ++ (cs.drop 19).take 4
      ++ cs.drop 24)
  else none

def parse? (s : String) : Option Uuid :=
  match s.toList with
  | '\x7b' :: rest => if rest.getLast? = some '\x7d' then ofGroups? rest.dropLast else none
  | 'u' :: 'r' :: 'n' :: ':' :: 'u' :: 'u' :: 'i' :: 'd' :: ':' :: rest => ofGroups? rest
  | cs => if cs.length = 32 then ofPlain? cs else ofGroups? cs

end Uuid

end SandboxPool
