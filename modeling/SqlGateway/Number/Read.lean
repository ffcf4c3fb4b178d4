import SqlGateway.Number.Double
import SqlGateway.Text.Basic
import SqlGateway.Text.Quoted

/-!
# Reading numbers

Integers and doubles are read from decimal text.  The digits of every script count, single
underscores may stand between digits, and spaces may stand around the number.
-/

namespace SqlGateway

inductive NumberError where
  | notInteger (text : String)
  | tooManyDigits (count : Nat)
  | notDecimal (text : String)
  deriving DecidableEq, Repr

def digitLimit : Nat := 4300

def NumberError.message : NumberError → String
  | notInteger text => "invalid literal for int() with base 10: " ++ Text.quoted text
  | tooManyDigits count =>
    s!"Exceeds the limit ({digitLimit} digits) for integer string conversion: value has {count} " ++
      "digits; use sys.set_int_max_str_digits() to increase the limit"
  | notDecimal text => "could not convert string to float: " ++ Text.quoted text

namespace Number

/-- The blanks that may stand around a number: all but the information separators. -/
def isOuterBlank (c : Char) : Bool :=
  Text.isBlank c && !(decide (28 ≤ c.toNat) && decide (c.toNat ≤ 31))

def digitsValue (digits : List Nat) : Nat :=
  digits.foldl (fun value d => 10 * value + d) 0

/-- Reads the digits at the beginning of a text and gives what follows.  A single underscore may
stand between two digits; `afterDigit` tells whether a digit was read last. -/
def digitsFrom (afterDigit : Bool) : List Char → List Nat × List Char
  | [] => ([], [])
  | c :: rest =>
    match Text.digitValue? c with
    | some d =>
      let (ds, left) := digitsFrom true rest
      (d :: ds, left)
    | none =>
      if c == '_' && afterDigit && rest.head?.any Text.isDecimal then digitsFrom false rest
      else ([], c :: rest)

def takeDigits (s : List Char) : List Nat × List Char :=
  digitsFrom false s

/-- Reads a sign at the beginning of a text; `true` stands for minus. -/
def takeSign : List Char → Bool × List Char
  | '-' :: rest => (true, rest)
  | '+' :: rest => (false, rest)
  | rest => (false, rest)

def readInt (s : List Char) : Except NumberError Int :=
  let (negative, body) := takeSign (Text.stripBy isOuterBlank s)
  let (digits, rest) := takeDigits body
  if digitLimit < digits.length then .error (.tooManyDigits digits.length)
  else if digits.isEmpty || !rest.isEmpty then .error (.notInteger (String.ofList s))
  else
    let n : Int := digitsValue digits
    .ok (if negative then -n else n)

def takePlaces : List Char → List Nat × List Char
  | '.' :: rest => takeDigits rest
  | rest => ([], rest)

/-- Reads an exponent, which may be missing; `none` if there is a mark without digits. -/
def takeExponent? : List Char → Option (Int × List Char)
  | c :: rest =>
    if c == 'e' || c == 'E' then
      let (negative, body) := takeSign rest
      let (digits, left) := takeDigits body
      if digits.isEmpty then none
      else
        let n : Int := digitsValue digits
        some (if negative then -n else n, left)
    else some (0, c :: rest)
  | [] => some (0, [])

def readUnsigned? (negative : Bool) (body : List Char) : Option Double :=
  let (whole, afterWhole) := takeDigits body
  let (places, afterPlaces) := takePlaces afterWhole
  if whole.isEmpty && places.isEmpty then none
  else
    match takeExponent? afterPlaces with
    | some (exponent, []) =>
      some (.ofDecimal negative (digitsValue (whole ++ places)) (exponent - places.length))
    | _ => none

/-- Reads a decimal number, an infinity or `nan`. -/
def readDouble (s : List Char) : Except NumberError Double :=
  let (negative, body) := takeSign (Text.stripBy isOuterBlank s)
  let name := String.ofList (body.map Char.toLower)
  if name == "inf" || name == "infinity" then .ok (.infinity negative)
  else if name == "nan" then .ok .nan
  else
    match readUnsigned? negative body with
    | some x => .ok x
    | none => .error (.notDecimal (String.ofList s))

end Number

end SqlGateway
