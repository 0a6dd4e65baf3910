import SandboxPool.Text.CaseTable

/-!
# Lower-casing of text

`lower s` replaces each letter by its lower-case form. One letter depends on its place: a capital
sigma that ends a word becomes `ς`, any other becomes `σ`.

* `lowerAscii` is the same for ASCII letters alone; the two agree on ASCII text
  (`lowerChar_ascii`).
-/

namespace SandboxPool.Text

/-- The lower-case form of a letter, wherever it stands. The dotted capital I becomes an `i`
followed by a combining dot; every other letter has a form of one letter. -/
def lowerChar (c : Char) : List Char :=
  if c.toNat < 0x80 then [c.toLower]
  else if c.toNat = 0x130 then ['i', Char.ofNat 0x307]
  else match lowerRuns.find? (·.covers c.toNat) with
    | some run => [Char.ofNat (Int.toNat (c.toNat + run.shift))]
    | none => [c]

def isCased (c : Char) : Bool := inRanges casedRanges c.toNat

/-- A case rule looks through the character. -/
def isCaseIgnorable (c : Char) : Bool := inRanges ignorableRanges c.toNat

/-- The first character that counts for a case rule has case. -/
def startsCased (cs : List Char) : Bool :=
  match cs.dropWhile isCaseIgnorable with
  | [] => false
  | c :: _ => isCased c

/-- Lower-cases `rest`, where `before` holds what came before it, nearest first. A capital sigma
is final when a cased letter precedes it and none follows. -/
def lowerFrom (before : List Char) : List Char → List Char
  | [] => []
  | c :: rest =>
    let form :=
      if c.toNat = 0x3A3 then
        if startsCased before && !startsCased rest then [Char.ofNat 0x3C2] else [Char.ofNat 0x3C3]
      else lowerChar c
    form ++ lowerFrom (c :: before) rest

def lower (s : String) : String := String.ofList (lowerFrom [] s.toList)

/-- The text with its ASCII letters in lower case. -/
def lowerAscii (s : String) : String := String.ofList (s.toList.map Char.toLower)

theorem lowerChar_ascii {c : Char} (h : c.toNat < 0x80) : lowerChar c = [c.toLower] := by
  simp [lowerChar, h]

end SandboxPool.Text
