import SqlGateway.Number.Double

/-!
# The text of numbers

Integers are written in decimal.  A double is written with the fewest digits that read back:
positionally while the point stays within sixteen digits, else with an exponent.
-/

namespace SqlGateway

def showInt (n : Int) : String :=
  let digits := String.ofList (Nat.toDigits 10 n.natAbs)
  if n < 0 then "-" ++ digits else digits

structure DoubleFormat where
  /-- Positional while the point stands after more than this many places … -/
  leastPoint : Int
  /-- … and at most this many. -/
  mostPoint : Int
  exponentWidth : Nat

/-- Doubles are positional from `0.0001` up to below `10 ^ 16`; an exponent has a sign and at least
two digits. -/
def plainDouble : DoubleFormat :=
  ⟨-4, 16, 2⟩

def padZeros (width : Nat) (digits : List Char) : List Char :=
  List.replicate (width - digits.length) '0' ++ digits

/-- The positional form of the digits, the point standing after `point` of them. -/
def positional (digits : List Char) (point : Int) : List Char :=
  if point ≤ 0 then '0' :: '.' :: List.replicate (-point).toNat '0' ++ digits
  else
    let whole := digits.take point.toNat
    let zeros := List.replicate (point.toNat - digits.length) '0'
    let behind := digits.drop point.toNat
    whole ++ zeros ++ '.' :: (if behind.isEmpty then ['0'] else behind)

def withExponent (format : DoubleFormat) (digits : List Char) (point : Int) : List Char :=
  let behind := digits.drop 1
  let exponent := point - 1
  digits.take 1 ++ (if behind.isEmpty then [] else '.' :: behind) ++
    'e' :: (if exponent < 0 then '-' else '+') ::
      padZeros format.exponentWidth (Nat.toDigits 10 exponent.natAbs)

def dropZeros (digits : List Char) : List Char :=
  (digits.reverse.dropWhile (· == '0')).reverse

def Double.textIn (format : DoubleFormat) (x : Double) : String :=
  if x.isNaN then "nan"
  else
    let sign := if x.negative then "-" else ""
    if x.isInfinite then sign ++ "inf"
    else if x.isZero then sign ++ "0.0"
    else
      let (d, k) := x.shortest
      let all := Nat.toDigits 10 d
      let point := (all.length : Int) + k
      let digits := dropZeros all
      let body :=
        if format.leastPoint < point && point ≤ format.mostPoint then positional digits point
        else withExponent format digits point
      sign ++ String.ofList body

def Double.text (x : Double) : String :=
  x.textIn plainDouble

end SqlGateway
