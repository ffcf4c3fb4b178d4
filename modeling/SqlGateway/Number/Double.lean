/-!
# Binary floating-point numbers of 64 bits

A `Double` is kept as its bits.  A finite one stands for `mantissa * 2 ^ scale`, and every operation
here works on that exact value in natural numbers: `ofRatio` rounds a quotient to the nearest double,
`shortest` finds the fewest digits that read back, and `roundTo` rounds to decimal places.
-/

namespace SqlGateway

/-- A binary floating-point number of 64 bits. -/
structure Double where
  bits : UInt64
  deriving DecidableEq, Repr, Inhabited

namespace Double

def pow2 (n : Nat) : Nat :=
  Nat.pow 2 n

def pow10 (n : Nat) : Nat :=
  Nat.pow 10 n

def negative (x : Double) : Bool :=
  decide (pow2 63 ≤ x.bits.toNat)

/-- The eleven bits of the exponent. -/
def exponentField (x : Double) : Nat :=
  x.bits.toNat / pow2 52 % pow2 11

/-- The 52 bits behind the exponent. -/
def fraction (x : Double) : Nat :=
  x.bits.toNat % pow2 52

def isNaN (x : Double) : Bool :=
  x.exponentField == 2047 && x.fraction != 0

def isInfinite (x : Double) : Bool :=
  x.exponentField == 2047 && x.fraction == 0

def isZero (x : Double) : Bool :=
  x.exponentField == 0 && x.fraction == 0

/-- The integer factor of a finite number. -/
def mantissa (x : Double) : Nat :=
  if x.exponentField == 0 then x.fraction else pow2 52 + x.fraction

/-- The power of two by which the mantissa of a finite number is scaled. -/
def scale (x : Double) : Int :=
  (max x.exponentField 1 : Nat) - 1075

/-- The magnitude of a finite number as a quotient of natural numbers. -/
def ratio (x : Double) : Nat × Nat :=
  if 0 ≤ x.scale then (x.mantissa * pow2 x.scale.toNat, 1)
  else (x.mantissa, pow2 (-x.scale).toNat)

/-- Equality of numbers: a value that is not a number equals nothing, and the two zeros are equal. -/
def equal (x y : Double) : Bool :=
  !x.isNaN && !y.isNaN && (x == y || (x.isZero && y.isZero))

/-- The quotient `num / den`, a half rounded to the even neighbour. -/
def roundDiv (num den : Nat) : Nat :=
  let q := num / den
  let twice := 2 * (num % den)
  if den < twice || (den == twice && q % 2 == 1) then q + 1 else q

/-- The quotient `num / den * 2 ^ shift`, a half rounded to the even neighbour. -/
def scaledDiv (num den : Nat) (shift : Int) : Nat :=
  if 0 ≤ shift then roundDiv (num * pow2 shift.toNat) den
  else roundDiv num (den * pow2 (-shift).toNat)

def signBit (negative : Bool) : Nat :=
  if negative then pow2 63 else 0

def ofParts (negative : Bool) (magnitude : Nat) : Double :=
  ⟨UInt64.ofNat (signBit negative + magnitude)⟩

def infinity (negative : Bool) : Double :=
  ofParts negative (2047 * pow2 52)

def nan : Double :=
  ofParts false (2047 * pow2 52 + pow2 51)

def zero (negative : Bool) : Double :=
  ofParts negative 0

/-- The power of two whose multiples hold the double nearest to `num / den`. -/
def unitExponent (num den : Nat) : Int :=
  let guess : Int := (Nat.log2 num : Int) - Nat.log2 den - 53
  let whole :=
    if 0 ≤ guess then num / (den * pow2 guess.toNat) else num * pow2 (-guess).toNat / den
  max (if pow2 53 ≤ whole then guess + 1 else guess) (-1074)

/-- The double nearest to `num / den`, a tie going to the even mantissa. -/
def ofRatio (negative : Bool) (num den : Nat) : Double :=
  if num == 0 then zero negative
  else
    let q := unitExponent num den
    let m := scaledDiv num den (-q)
    let bits := if m < pow2 52 then m else (q + 1074).toNat * pow2 52 + m
    if bits < 2047 * pow2 52 then ofParts negative bits else infinity negative

def digitCount (n : Nat) : Nat :=
  (Nat.toDigits 10 n).length

/-- The double nearest to `digits * 10 ^ exponent`.  Magnitudes far outside the range are settled by
the number of digits. -/
def ofDecimal (negative : Bool) (digits : Nat) (exponent : Int) : Double :=
  if digits == 0 then zero negative
  else if (digitCount digits : Int) + exponent > 310 then infinity negative
  else if (digitCount digits : Int) + exponent < -330 then zero negative
  else if 0 ≤ exponent then ofRatio negative (digits * pow10 exponent.toNat) 1
  else ofRatio negative digits (pow10 (-exponent).toNat)

def ofInt (n : Int) : Double :=
  ofRatio (decide (n < 0)) n.natAbs 1

/-- The place of the decimal point before the digits of `num / den`: the value lies between
`10 ^ (p - 1)` and `10 ^ p`. -/
def pointPlace (num den : Nat) : Int :=
  let guess : Int := (digitCount num : Int) - digitCount den
  let reached := if 0 ≤ guess then den * pow10 guess.toNat ≤ num else den ≤ num * pow10 (-guess).toNat
  if reached then guess + 1 else guess

/-- `num / den / 10 ^ k`, rounded down. -/
def floorScaled (num den : Nat) (k : Int) : Nat :=
  if 0 ≤ k then num / (den * pow10 k.toNat) else num * pow10 (-k).toNat / den

/-- Whether `a * 10 ^ k` is nearer to `num / den` than `(a + 1) * 10 ^ k` is. -/
def lowerNearer (num den : Nat) (k : Int) (a : Nat) : Bool :=
  if 0 ≤ k then decide (2 * num ≤ (2 * a + 1) * pow10 k.toNat * den)
  else decide (2 * num * pow10 (-k).toNat ≤ (2 * a + 1) * den)

/-- The decimal of `n` digits nearest to a positive number, if it reads back as that number. -/
def withDigits? (x : Double) (n : Nat) : Option (Nat × Int) :=
  let (num, den) := x.ratio
  let k := pointPlace num den - n
  let a := floorScaled num den k
  let readsBack (d : Nat) : Bool := ofDecimal x.negative d k == x
  match readsBack a, readsBack (a + 1) with
  | true, true => some (if lowerNearer num den k a then a else a + 1, k)
  | true, false => some (a, k)
  | false, true => some (a + 1, k)
  | false, false => none

/-- The fewest digits that read back: the pair `(d, k)` stands for `d * 10 ^ k`. -/
def shortest (x : Double) : Nat × Int :=
  ((List.range 18).findSome? fun n => if n == 0 then none else x.withDigits? n).getD (0, 0)

/-- Rounds a finite number to `places` decimal places; a half goes to the even neighbour. -/
def roundTo (places : Nat) (x : Double) : Double :=
  if x.exponentField == 2047 || 323 < places then x
  else
    let (num, den) := x.ratio
    ofDecimal x.negative (roundDiv (num * pow10 places) den) (-(places : Int))

def quotient (num den : Int) : Double :=
  ofRatio (decide (num < 0) != decide (den < 0)) num.natAbs den.natAbs

def times (x : Double) (n : Nat) : Double :=
  if x.exponentField == 2047 then x
  else
    let (num, den) := x.ratio
    ofRatio x.negative (num * n) den

/-- The order of numbers; nothing is below or above a value that is not a number. -/
def less (x y : Double) : Bool :=
  if x.isNaN || y.isNaN then false
  else
    let signed (z : Double) : Int :=
      let magnitude : Nat := z.bits.toNat % pow2 63
      if z.negative then -(magnitude : Int) else magnitude
    decide (signed x < signed y)

end Double

end SqlGateway
