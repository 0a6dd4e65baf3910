/-!
# The shortest decimal of a double

A finite double is `m · 2 ^ q` with whole `m` and `q`. The reals that round to it form an interval
around it, whose ends count when `m` is even. `shortest` gives the decimal with the fewest digits
in that interval and, of those, the one nearest to the double; a tie goes to the even digit.

* `Scaled` is a number `digits · 10 ^ exponent`.
* `Scaled.text` writes one: positional where the point falls among the first sixteen digits or
  shortly before the first, with an exponent elsewhere.
-/

namespace SandboxPool.Decimal

def powerOfTwo (n : Nat) : Nat := Nat.pow 2 n

def powerOfTen (n : Nat) : Nat := Nat.pow 10 n

/-- The number `digits · 10 ^ exponent`. -/
structure Scaled where
  digits : Nat
  exponent : Int
  deriving Repr, DecidableEq

/-- The parts of a finite positive double: it is `mantissa · 2 ^ exponent`. `narrow` says that the
gap below it is half the gap above. -/
structure Binary where
  mantissa : Nat
  exponent : Int
  narrow : Bool
  deriving Repr, DecidableEq

/-- The double with the given bits, without its sign. -/
def Binary.ofBits (bits : UInt64) : Binary :=
  let fraction := bits.toNat % powerOfTwo 52
  let field := bits.toNat / powerOfTwo 52 % powerOfTwo 11
  if field = 0 then ⟨fraction, -1074, false⟩
  else ⟨powerOfTwo 52 + fraction, Int.ofNat field - 1075, fraction = 0 && 1 < field⟩

/-- A quotient of whole numbers. -/
structure Ratio where
  num : Nat
  den : Nat

def Ratio.scale2 (n : Nat) (e : Int) : Ratio :=
  if 0 ≤ e then ⟨n * powerOfTwo e.toNat, 1⟩ else ⟨n, powerOfTwo (-e).toNat⟩

def Ratio.scale10 (r : Ratio) (e : Int) : Ratio :=
  if 0 ≤ e then ⟨r.num * powerOfTen e.toNat, r.den⟩ else ⟨r.num, r.den * powerOfTen (-e).toNat⟩

/-- How many times a number can be multiplied by ten before it reaches the bound. -/
def stepsToReach (bound : Nat) : Nat → Nat → Nat
  | 0, _ => 0
  | fuel + 1, n => if bound ≤ n then 0 else stepsToReach bound fuel (n * 10) + 1

/-- The exponent of the leading decimal digit of a positive ratio. -/
def Ratio.leading (r : Ratio) : Int :=
  let whole := r.num / r.den
  if 0 < whole then Int.ofNat (Nat.toDigits 10 whole).length - 1
  else -Int.ofNat (stepsToReach r.den 400 r.num)

/-- The decimals that round to a double. -/
structure Interval where
  low : Ratio
  high : Ratio
  closed : Bool

/-- The reals that round to a double, as ratios. -/
def Binary.interval (b : Binary) : Interval :=
  let below := if b.narrow then 1 else 2
  ⟨.scale2 (4 * b.mantissa - below) (b.exponent - 2), .scale2 (4 * b.mantissa + 2) (b.exponent - 2),
    b.mantissa % 2 = 0⟩

/-- The whole number `n`, on the grid of `10 ^ (-p)`, lies in the interval. -/
def Interval.holds (i : Interval) (p : Int) (n : Nat) : Bool :=
  let low := i.low.scale10 p
  let high := i.high.scale10 p
  if i.closed then low.num ≤ n * low.den && n * high.den ≤ high.num
  else low.num < n * low.den && n * high.den < high.num

/-- The point of the grid `10 ^ (-p)` that is nearest to the double among its two neighbours
there, of those that round to the double. -/
def Binary.onGrid? (b : Binary) (p : Int) : Option Nat :=
  let value := (Ratio.scale2 b.mantissa b.exponent).scale10 p
  let floor := value.num / value.den
  let rest := value.num % value.den
  let interval := b.interval
  match interval.holds p floor, interval.holds p (floor + 1) with
  | true, true =>
    if 2 * rest < value.den then some floor
    else if value.den < 2 * rest then some (floor + 1)
    else if floor % 2 = 0 then some floor else some (floor + 1)
  | true, false => some floor
  | false, true => some (floor + 1)
  | false, false => none

/-- Takes the zeros off the end of the digits. -/
def stripZeros : Nat → Scaled → Scaled
  | 0, d => d
  | fuel + 1, d =>
    if d.digits ≠ 0 && d.digits % 10 = 0 then stripZeros fuel ⟨d.digits / 10, d.exponent + 1⟩ else d

/-- The first grid, of those with `count` digits and finer ones, that has a point that rounds to
the double. Seventeen digits are always enough. -/
def searchGrids (b : Binary) (leading : Int) : Nat → Nat → Scaled
  | 0, _ => ⟨0, 0⟩
  | fuel + 1, count =>
    let p := Int.ofNat count - 1 - leading
    match b.onGrid? p with
    | some digits => stripZeros 20 ⟨digits, -p⟩
    | none => searchGrids b leading fuel (count + 1)

/-- The shortest decimal that rounds to a finite double, without its sign. -/
def shortest (bits : UInt64) : Scaled :=
  let b := Binary.ofBits bits
  if b.mantissa = 0 then ⟨0, 0⟩
  else searchGrids b (Ratio.scale2 b.mantissa b.exponent).leading 18 1

def digitList (n : Nat) : List Char := Nat.toDigits 10 n

/-- A whole number, with a sign if it is negative. -/
def integerText (i : Int) : List Char :=
  if i < 0 then '-' :: digitList i.natAbs else digitList i.natAbs

/-- Positional where the point falls among the first sixteen digits or up to four zeros before the
first, always with a digit on each side of the point; elsewhere one digit, the others behind a
point, and the exponent behind an `e`. -/
def Scaled.text (d : Scaled) : List Char :=
  let digits := digitList d.digits
  let point := Int.ofNat digits.length + d.exponent
  if 0 ≤ d.exponent && point ≤ 16 then
    digits ++ List.replicate d.exponent.toNat '0' ++ ['.', '0']
  else if 0 < point && point ≤ 16 then
    digits.take point.toNat ++ '.' :: digits.drop point.toNat
  else if -5 < point && point ≤ 0 then
    '0' :: '.' :: List.replicate (-point).toNat '0' ++ digits
  else match digits with
    | [] => []
    | [c] => c :: 'e' :: integerText (point - 1)
    | c :: rest => c :: '.' :: rest ++ 'e' :: integerText (point - 1)

/-- The text of a finite double. -/
def floatText (bits : UInt64) : List Char :=
  let magnitude := bits.toNat % powerOfTwo 63
  let body := if magnitude = 0 then ['0', '.', '0'] else (shortest bits).text
  if powerOfTwo 63 ≤ bits.toNat then '-' :: body else body

end SandboxPool.Decimal
