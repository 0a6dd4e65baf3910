/-!
# Bytes that should be UTF-8

* `decodeMarked` reads any bytes and marks each maximal part of a broken sequence;
  `decodeLossy` puts U+FFFD in those places, and `decode?` refuses bytes that have any.
* `bytePrefix?` cuts a text after a number of bytes, unless that falls inside a character.
-/

namespace SandboxPool.Text

/-- The range of second bytes and the number of later bytes that a leading byte asks for; none for
a byte that leads nothing. -/
def followers (lead : UInt8) : Option (UInt8 × UInt8 × Nat) :=
  if 0xC2 ≤ lead && lead ≤ 0xDF then some (0x80, 0xBF, 0)
  else if lead == 0xE0 then some (0xA0, 0xBF, 1)
  else if lead == 0xED then some (0x80, 0x9F, 1)
  else if 0xE1 ≤ lead && lead ≤ 0xEF then some (0x80, 0xBF, 1)
  else if lead == 0xF0 then some (0x90, 0xBF, 2)
  else if 0xF1 ≤ lead && lead ≤ 0xF3 then some (0x80, 0xBF, 2)
  else if lead == 0xF4 then some (0x80, 0x8F, 2)
  else none

/-- Takes up to `n` continuation bytes, each six bits of the code point. Gives the code point if
all were there, and the number of bytes taken. -/
def takeContinuations : Nat → Nat → List UInt8 → Option Nat × Nat
  | 0, acc, _ => (some acc, 0)
  | n + 1, acc, b :: rest =>
    if 0x80 ≤ b && b ≤ 0xBF then
      let (code, taken) := takeContinuations n (acc * 64 + (b.toNat - 0x80)) rest
      (code, taken + 1)
    else (none, 0)
  | _ + 1, _, [] => (none, 0)

/-- The first character of the bytes `lead :: rest`, none if it is broken, and the number of bytes
of `rest` that it takes. -/
def decodeLead (lead : UInt8) (rest : List UInt8) : Option Char × Nat :=
  if lead < 0x80 then (some (Char.ofNat lead.toNat), 0)
  else match followers lead, rest with
    | some (low, high, later), second :: tail =>
      if low ≤ second && second ≤ high then
        let bits := if later = 0 then lead.toNat - 0xC0
          else if later = 1 then lead.toNat - 0xE0 else lead.toNat - 0xF0
        let (code, taken) := takeContinuations later (bits * 64 + (second.toNat - 0x80)) tail
        (code.map Char.ofNat, taken + 1)
      else (none, 0)
    | _, _ => (none, 0)

/-- The characters of the bytes, with `none` for each maximal part of a broken sequence. -/
def decodeMarked : List UInt8 → List (Option Char)
  | [] => []
  | lead :: rest =>
    let (c, taken) := decodeLead lead rest
    c :: decodeMarked (rest.drop taken)
termination_by bytes => bytes.length
decreasing_by rw [List.length_drop, List.length_cons]; omega

/-- The bytes as text, with U+FFFD for what is not UTF-8. -/
def decodeLossy (bytes : List UInt8) : String :=
  String.ofList ((decodeMarked bytes).map (·.getD (Char.ofNat 0xFFFD)))

/-- The bytes as text, if all of them are UTF-8. -/
def decode? (bytes : List UInt8) : Option String :=
  ((decodeMarked bytes).mapM id).map String.ofList

/-- The first characters that together have `n` bytes, if a character ends there. -/
def bytePrefixList? : List Char → Nat → Option (List Char)
  | _, 0 => some []
  | [], _ + 1 => none
  | c :: rest, n + 1 =>
    if c.utf8Size ≤ n + 1 then (bytePrefixList? rest (n + 1 - c.utf8Size)).map (c :: ·) else none

/-- The first `n` bytes of a text, if they end with a character. -/
def bytePrefix? (n : Nat) (s : String) : Option String :=
  (bytePrefixList? s.toList n).map String.ofList

end SandboxPool.Text
