import SandboxPool.Time.Timestamp

/-!
# Lengths of time

A `Duration` is a number of nanoseconds. `Duration.text` writes it in the largest of the units s,
ms, µs and ns that it fills at least once, with its exact fraction.
-/

namespace SandboxPool

structure Duration where
  nanos : Nat
  deriving Repr, DecidableEq, Inhabited

namespace Duration

def ofMillis (n : Nat) : Duration := ⟨n * 1000000⟩

def millis (d : Duration) : Nat := d.nanos / 1000000

/-- A fraction of `width` digits without the zeros at its end, behind a point. -/
def fraction (width n : Nat) : List Char :=
  if n = 0 then []
  else '.' :: ((Time.padded width n).reverse.dropWhile (· == '0')).reverse

/-- The text of a length of time. -/
def text (d : Duration) : String :=
  let n := d.nanos
  let scaled (width : Nat) (suffix : List Char) :=
    let unit := Decimal.powerOfTen width
    Decimal.digitList (n / unit) ++ fraction width (n % unit) ++ suffix
  String.ofList <|
    if 1000000000 ≤ n then scaled 9 ['s']
    else if 1000000 ≤ n then scaled 6 ['m', 's']
    else if 1000 ≤ n then scaled 3 ['\u00b5', 's']
    else scaled 0 ['n', 's']

end Duration

end SandboxPool
