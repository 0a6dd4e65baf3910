import SandboxPool.Json.Tree
import SandboxPool.Text.Percent
import SandboxPool.Text.Utf8

/-!
# Reading JSON text

`read?` takes a text apart by the JSON grammar: one value, with blanks around it. The text is a
list of characters in which `none` stands for bytes that are no UTF-8; those are allowed only
inside quotes.

* A number has no leading zeros, and a digit on both sides of a point.
* Inside quotes only characters from U+0020 on stand for themselves; `\u` escapes of a surrogate
  pair give one character, and half of a pair leaves the text without content.
* No comma stands before a closing bracket.
-/

namespace SandboxPool.Json

/-- A text that may have broken places. -/
abbrev Marked := List (Option Char)

def marked (s : String) : Marked := s.toList.map some

/-- Leaves out blanks: spaces, tabs, line feeds and carriage returns. -/
def skipBlank : Marked → Marked
  | some ' ' :: rest => skipBlank rest
  | some '\t' :: rest => skipBlank rest
  | some '\n' :: rest => skipBlank rest
  | some '\r' :: rest => skipBlank rest
  | cs => cs

/-- Takes the word from the front of the text. -/
def expect? : List Char → Marked → Option Marked
  | [], cs => some cs
  | w :: word, some c :: rest => if w = c then expect? word rest else none
  | _ :: _, _ => none

/-! ## Numbers -/

/-- Splits the digits off the front. -/
def takeDigits : Marked → List Char × Marked
  | some c :: rest =>
    if 48 ≤ c.toNat && c.toNat ≤ 57 then
      let (digits, left) := takeDigits rest
      (c :: digits, left)
    else ([], some c :: rest)
  | cs => ([], cs)

/-- Reads what may follow the whole digits of a number: a point with digits. -/
def readFraction? : Marked → Option (Option (List Char) × Marked)
  | some '.' :: rest =>
    let (digits, left) := takeDigits rest
    if digits.isEmpty then none else some (some digits, left)
  | cs => some (none, cs)

/-- Reads the sign and the digits of an exponent. -/
def readExponentDigits? (cs : Marked) : Option (Option (Bool × List Char) × Marked) :=
  let (negative, rest) := match cs with
    | some '+' :: rest => (false, rest)
    | some '-' :: rest => (true, rest)
    | rest => (false, rest)
  let (digits, left) := takeDigits rest
  if digits.isEmpty then none else some (some (negative, digits), left)

/-- Reads what may follow the digits of a number: an exponent. -/
def readExponent? : Marked → Option (Option (Bool × List Char) × Marked)
  | some 'e' :: rest => readExponentDigits? rest
  | some 'E' :: rest => readExponentDigits? rest
  | cs => some (none, cs)

/-- Reads a number behind its sign. -/
def readMagnitude? (negative : Bool) (cs : Marked) : Option (Numeral × Marked) :=
  let (whole, rest) := takeDigits cs
  if whole.isEmpty || (whole.head? = some '0' && 1 < whole.length) then none
  else
    (readFraction? rest).bind fun (fraction, rest) =>
      (readExponent? rest).map fun (exponent, rest) => (⟨negative, whole, fraction, exponent⟩, rest)

def readNumeral? : Marked → Option (Numeral × Marked)
  | some '-' :: rest => readMagnitude? true rest
  | cs => readMagnitude? false cs

/-! ## Texts -/

def readHex4? : Marked → Option (Nat × Marked)
  | some a :: some b :: some c :: some d :: rest =>
    match Text.hexValue? a, Text.hexValue? b, Text.hexValue? c, Text.hexValue? d with
    | some a, some b, some c, some d => some (((a * 16 + b) * 16 + c) * 16 + d, rest)
    | _, _, _, _ => none
  | _ => none

/-- What an escape other than `\u` stands for. -/
def simpleEscape? (c : Char) : Option Char :=
  if c = '\"' then some c
  else if c = '\\' then some c
  else if c = '/' then some c
  else if c = 'b' then some (Char.ofNat 8)
  else if c = 'f' then some (Char.ofNat 12)
  else if c = 'n' then some '\n'
  else if c = 'r' then some '\r'
  else if c = 't' then some '\t'
  else none

/-- Reads a `\u` escape from its digits on, with the second half of a surrogate pair. The
character is none for half a pair alone. -/
def readUnicode? (cs : Marked) : Option (Option Char × Marked) :=
  (readHex4? cs).map fun (code, rest) =>
    if 0xD800 ≤ code && code ≤ 0xDBFF then
      match rest with
      | some '\\' :: some 'u' :: more =>
        match readHex4? more with
        | some (low, left) =>
          if 0xDC00 ≤ low && low ≤ 0xDFFF then
            (some (Char.ofNat (0x10000 + (code - 0xD800) * 0x400 + (low - 0xDC00))), left)
          else (none, rest)
        | none => (none, rest)
      | _ => (none, rest)
    else if 0xDC00 ≤ code && code ≤ 0xDFFF then (none, rest)
    else (some (Char.ofNat code), rest)

/-- Reads one character inside quotes; none in it marks a place without content. -/
def readChar? : Marked → Option (Option Char × Marked)
  | some '\\' :: some 'u' :: rest => readUnicode? rest
  | some '\\' :: some c :: rest => (simpleEscape? c).map fun d => (some d, rest)
  | some '\\' :: _ => none
  | some c :: rest => if c.toNat < 0x20 then none else some (some c, rest)
  | none :: rest => some (none, rest)
  | [] => none

/-- Reads the characters up to the closing quote, where `acc` holds those before in reverse order,
or none if one had no content. Every character takes one off the fuel. -/
def readQuoted? : Nat → Option (List Char) → Marked → Option (Option String × Marked)
  | 0, _, _ => none
  | fuel + 1, acc, cs =>
    match cs with
    | some '\"' :: rest => some (acc.map fun a => String.ofList a.reverse, rest)
    | _ =>
      (readChar? cs).bind fun (c, rest) =>
        readQuoted? fuel (acc.bind fun a => c.map (· :: a)) rest

/-! ## Values -/

mutual

/-- Reads one value from its first character on. Every value, element and field takes one off the
fuel. -/
def readTree? : Nat → Marked → Option (Tree × Marked)
  | 0, _ => none
  | fuel + 1, cs =>
    match cs with
    | some 'n' :: rest => (expect? ['u', 'l', 'l'] rest).map fun left => (.null, left)
    | some 't' :: rest => (expect? ['r', 'u', 'e'] rest).map fun left => (.bool true, left)
    | some 'f' :: rest => (expect? ['a', 'l', 's', 'e'] rest).map fun left => (.bool false, left)
    | some '\"' :: rest =>
      (readQuoted? (rest.length + 1) (some []) rest).map fun (s, left) => (.string s, left)
    | some '[' :: rest =>
      match skipBlank rest with
      | some ']' :: left => some (.array [], left)
      | more => (readElements? fuel [] more).map fun (ts, left) => (.array ts, left)
    | some '\x7b' :: rest =>
      match skipBlank rest with
      | some '\x7d' :: left => some (.object [], left)
      | more => (readFields? fuel [] more).map fun (fs, left) => (.object fs, left)
    | _ => (readNumeral? cs).map fun (n, left) => (.number n, left)

/-- Reads elements up to the closing bracket, where `acc` holds those before in reverse order. -/
def readElements? : Nat → List Tree → Marked → Option (List Tree × Marked)
  | 0, _, _ => none
  | fuel + 1, acc, cs =>
    (readTree? fuel cs).bind fun (t, rest) =>
      match skipBlank rest with
      | some ',' :: more => readElements? fuel (t :: acc) (skipBlank more)
      | some ']' :: left => some ((t :: acc).reverse, left)
      | _ => none

/-- Reads fields up to the closing brace, where `acc` holds those before in reverse order. -/
def readFields? : Nat → List (Option String × Tree) → Marked →
    Option (List (Option String × Tree) × Marked)
  | 0, _, _ => none
  | fuel + 1, acc, cs =>
    match cs with
    | some '\"' :: rest =>
      (readQuoted? (rest.length + 1) (some []) rest).bind fun (name, rest) =>
        match skipBlank rest with
        | some ':' :: more =>
          (readTree? fuel (skipBlank more)).bind fun (t, rest) =>
            match skipBlank rest with
            | some ',' :: more => readFields? fuel ((name, t) :: acc) (skipBlank more)
            | some '\x7d' :: left => some (((name, t) :: acc).reverse, left)
            | _ => none
        | _ => none
    | _ => none

end

/-- Takes a text apart that is one value with blanks around it. -/
def read? (cs : Marked) : Option Tree :=
  (readTree? (cs.length + 1) (skipBlank cs)).bind fun (t, rest) =>
    if (skipBlank rest).isEmpty then some t else none

def readText? (s : String) : Option Tree := read? (marked s)

def readBytes? (bytes : List UInt8) : Option Tree := read? (Text.decodeMarked bytes)

end SandboxPool.Json
