/-!
# Blank characters

The characters with the Unicode property White_Space, and trimming by them.
-/

namespace SandboxPool.Text

/-- The character has the property White_Space. -/
def isBlank (c : Char) : Bool :=
  let n := c.toNat
  (0x9 ≤ n && n ≤ 0xD) || n == 0x20 || n == 0x85 || n == 0xA0 || n == 0x1680
    || (0x2000 ≤ n && n ≤ 0x200A) || n == 0x2028 || n == 0x2029 || n == 0x202F
    || n == 0x205F || n == 0x3000

/-- The characters without the blank ones at the front. -/
def trimStartList (cs : List Char) : List Char := cs.dropWhile isBlank

/-- The characters without the blank ones at either end. -/
def trimList (cs : List Char) : List Char :=
  (trimStartList (trimStartList cs).reverse).reverse

def trim (s : String) : String := String.ofList (trimList s.toList)

def allBlank (s : String) : Bool := s.toList.all isBlank

theorem trimStartList_eq_nil_iff {cs : List Char} :
    trimStartList cs = [] ↔ cs.all isBlank = true := by
  induction cs with
  | nil => simp [trimStartList]
  | cons c cs ih =>
    by_cases h : isBlank c <;> simp_all [trimStartList]

/-- A zero-width space is not blank. -/
example : trimStartList [Char.ofNat 0x200B] ≠ [] := by decide

end SandboxPool.Text
