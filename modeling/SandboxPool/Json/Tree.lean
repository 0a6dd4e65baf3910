import SandboxPool.Json.Value
import SandboxPool.Text.Integer

/-!
# JSON text as it is written

A `Tree` is a JSON text taken apart and not yet judged: fields stand in the order of the text with
their repetitions, a number is its digits, and a text that holds half of a surrogate pair or a byte
that is no UTF-8 has no content. Whether that matters depends on who reads it: a member that
nobody asks for may hold anything.

* `Numeral.number?` gives the number that a numeral stands for: a whole number if it has neither
  fraction nor exponent and fits 64 bits, else a double, unless it is too large for one.
* `Tree.value?` reads a tree as a value that is kept whole. Of several fields with one name the
  last one stays, and fields end in ascending order.
-/

namespace SandboxPool.Json

structure Numeral where
  negative : Bool
  whole : List Char
  fraction : Option (List Char)
  exponent : Option (Bool × List Char)
  deriving Repr, DecidableEq, Inhabited

/-- A JSON text taken apart. The exponent of a numeral comes with whether it is negative. -/
inductive Tree where
  | null
  | bool (b : Bool)
  | number (n : Numeral)
  | string (content : Option String)
  | array (elements : List Tree)
  | object (fields : List (Option String × Tree))
  deriving Repr, Inhabited

/-! ## Numbers -/

/-- A magnitude `significand · 10 ^ exponent` that is read digit by digit. The significand keeps
as many digits as fit 64 bits. -/
structure Scan where
  significand : Nat
  exponent : Int

/-- Reads the digits before the point. Digits that no longer fit only raise the exponent; the
flag says whether there were any. -/
def Scan.whole : Scan → Bool → List Char → Scan × Bool
  | s, full, [] => (s, full)
  | s, full, c :: rest =>
    let next := s.significand * 10 + (c.toNat - 48)
    if full || Text.max64 < next then Scan.whole ⟨s.significand, s.exponent + 1⟩ true rest
    else Scan.whole ⟨next, s.exponent⟩ false rest

/-- Reads the digits behind the point until one no longer fits; the others are dropped. -/
def Scan.fraction : Scan → List Char → Scan
  | s, [] => s
  | s, c :: rest =>
    let next := s.significand * 10 + (c.toNat - 48)
    if Text.max64 < next then s else Scan.fraction ⟨next, s.exponent - 1⟩ rest

/-- The largest exponent that is told apart from infinity. -/
def exponentBound : Nat := 2147483647

/-- Divides by `10 ^ 308` until the remaining exponent is at least that, then scales. `none` where
the result is infinite. -/
def scaleDouble : Nat → Float → Int → Option Float
  | 0, f, _ => some f
  | fuel + 1, f, e =>
    if e.natAbs ≤ 308 then
      let power := Float.ofScientific 1 false e.natAbs
      if 0 ≤ e then
        let scaled := f * power
        if scaled.isInf then none else some scaled
      else some (f / power)
    else if f == 0.0 then some f
    else if 0 ≤ e then none
    else scaleDouble fuel (f / Float.ofScientific 1 false 308) (e + 308)

def Scan.double? (s : Scan) : Option Float :=
  if s.significand = 0 then some 0.0
  else if s.exponent < -2000 then some 0.0
  else scaleDouble 10 (UInt64.ofNat s.significand).toFloat s.exponent

/-- The magnitude of a numeral as a double. -/
def Numeral.double? (n : Numeral) : Option Float :=
  let scanned := (Scan.whole ⟨0, 0⟩ false n.whole).1
  let scanned := match n.fraction with
    | some digits => Scan.fraction scanned digits
    | none => scanned
  match n.exponent with
  | none => scanned.double?
  | some (negative, digits) =>
    let e := (Text.readDigits? 0 digits).getD 0
    if exponentBound < e then
      if scanned.significand = 0 || negative then some 0.0 else none
    else
      Scan.double? ⟨scanned.significand,
        if negative then scanned.exponent - Int.ofNat e else scanned.exponent + Int.ofNat e⟩

def signedBits (negative : Bool) (f : Float) : UInt64 := (if negative then -f else f).toBits

/-- The largest magnitude of a negative number of 64 bits. -/
def maxNegative : Nat := 9223372036854775808

/-- The number that a numeral stands for, if it is not too large. -/
def Numeral.number? (n : Numeral) : Option Number :=
  let size := (Text.readDigits? 0 n.whole).getD 0
  if n.fraction.isNone && n.exponent.isNone && size ≤ Text.max64
      && (!n.negative || (0 < size && size ≤ maxNegative)) then
    some (.whole (if n.negative then -Int.ofNat size else Int.ofNat size))
  else n.double?.map fun f => .double (signedBits n.negative f)

/-! ## Whole values -/

/-- The number of nested arrays and objects that a reader goes into. -/
def maxDepth : Nat := 127

mutual

/-- The value that a tree stands for, with at most `room` nested arrays and objects. -/
def Tree.value? (room : Nat) : Tree → Option Value
  | .null => some .null
  | .bool b => some (.bool b)
  | .number n => n.number?.map .number
  | .string content => content.map .string
  | .array elements => if room = 0 then none else (valueAll? (room - 1) elements).map .array
  | .object fields =>
    if room = 0 then none
    else (valueEach? (room - 1) fields).map fun fs => .object (sortFields fs)

/-- `Tree.value?` on every element. -/
def valueAll? (room : Nat) : List Tree → Option (List Value)
  | [] => some []
  | t :: rest =>
    (t.value? room).bind fun v => (valueAll? room rest).map (v :: ·)

/-- `Tree.value?` on every field. -/
def valueEach? (room : Nat) : List (Option String × Tree) → Option (List (String × Value))
  | [] => some []
  | (name, t) :: rest =>
    name.bind fun n => (t.value? room).bind fun v => (valueEach? room rest).map ((n, v) :: ·)

end

/-- Every text has content, every number has a size that can be kept, and no more than `room`
arrays and objects are nested. -/
def Tree.sound (room : Nat) (t : Tree) : Bool := (t.value? room).isSome

end SandboxPool.Json
