import SandboxPool.Json.Value
import SandboxPool.Decimal.Shortest

/-!
# Writing JSON

* `compact` writes a value without any blank, its fields in the order in which they stand.
* `pretty` writes it over several lines, two spaces deeper at each level.
* `quote` writes a text: quotes, backslashes and control characters are escaped, everything else
  stands for itself.
-/

namespace SandboxPool.Json

def lowerHexDigit (n : Nat) : Char :=
  if n < 10 then Char.ofNat (48 + n) else Char.ofNat (87 + n)

/-- One character inside a quoted text. -/
def escapeChar (c : Char) : List Char :=
  if c.toNat = 0x22 then ['\\', '\"']
  else if c.toNat = 0x5C then ['\\', '\\']
  else if c.toNat = 0x08 then ['\\', 'b']
  else if c.toNat = 0x0C then ['\\', 'f']
  else if c.toNat = 0x0A then ['\\', 'n']
  else if c.toNat = 0x0D then ['\\', 'r']
  else if c.toNat = 0x09 then ['\\', 't']
  else if c.toNat < 0x20 then
    ['\\', 'u', '0', '0', lowerHexDigit (c.toNat / 16), lowerHexDigit (c.toNat % 16)]
  else [c]

def quote (s : String) : List Char := '\"' :: s.toList.flatMap escapeChar ++ ['\"']

def Number.text : Number → List Char
  | .whole i => Decimal.integerText i
  | .double bits => Decimal.floatText bits

mutual

/-- The characters of a value without any blank. -/
def Value.render : Value → List Char
  | .null => ['n', 'u', 'l', 'l']
  | .bool true => ['t', 'r', 'u', 'e']
  | .bool false => ['f', 'a', 'l', 's', 'e']
  | .number n => n.text
  | .string s => quote s
  | .array [] => ['[', ']']
  | .array (v :: rest) => '[' :: v.render ++ renderElements rest
  | .object [] => ['\x7b', '\x7d']
  | .object ((name, v) :: rest) => '\x7b' :: quote name ++ ':' :: v.render ++ renderFields rest

/-- The later elements of an array and the closing bracket. -/
def renderElements : List Value → List Char
  | [] => [']']
  | v :: rest => ',' :: v.render ++ renderElements rest

/-- The later fields of an object and the closing brace. -/
def renderFields : List (String × Value) → List Char
  | [] => ['\x7d']
  | (name, v) :: rest => ',' :: quote name ++ ':' :: v.render ++ renderFields rest

end

/-- The text of a value without any blank. -/
def Value.compact (v : Value) : String := String.ofList v.render

/-- A line break and the indentation of a level. -/
def newLine (level : Nat) : List Char := '\n' :: List.replicate (2 * level) ' '

mutual

/-- The characters of a value over several lines. -/
def Value.renderPretty (level : Nat) : Value → List Char
  | .array [] => ['[', ']']
  | .array (v :: rest) =>
    '[' :: newLine (level + 1) ++ v.renderPretty (level + 1) ++ prettyElements level rest
  | .object [] => ['\x7b', '\x7d']
  | .object ((name, v) :: rest) =>
    '\x7b' :: newLine (level + 1) ++ quote name ++ ':' :: ' ' :: v.renderPretty (level + 1)
      ++ prettyFields level rest
  | v => v.render

/-- The later elements of an array and the closing bracket. -/
def prettyElements (level : Nat) : List Value → List Char
  | [] => newLine level ++ [']']
  | v :: rest =>
    ',' :: newLine (level + 1) ++ v.renderPretty (level + 1) ++ prettyElements level rest

/-- The later fields of an object and the closing brace. -/
def prettyFields (level : Nat) : List (String × Value) → List Char
  | [] => newLine level ++ ['\x7d']
  | (name, v) :: rest =>
    ',' :: newLine (level + 1) ++ quote name ++ ':' :: ' ' :: v.renderPretty (level + 1)
      ++ prettyFields level rest

end

/-- The text of a value over several lines. -/
def Value.pretty (v : Value) : String := String.ofList (v.renderPretty 0)

end SandboxPool.Json
