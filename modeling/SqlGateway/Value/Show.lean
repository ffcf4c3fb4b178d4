import SqlGateway.Text.Quoted
import SqlGateway.Value.Basic

/-!
# The text of values

`Value.shown` is the form of a value inside lists and documents, where texts are quoted; `Value.plain`
leaves a text as it is.
-/

namespace SqlGateway

namespace Value

def kind : Value → String
  | .null => "NoneType"
  | .bool _ => "bool"
  | .int _ => "int"
  | .float _ => "float"
  | .text _ => "str"
  | .bytes _ => "bytes"
  | .id _ => "ObjectId"
  | .time _ => "datetime"
  | .list _ => "list"
  | .doc _ => "dict"

def shownByte (quote : Char) (b : UInt8) : List Char :=
  let c := Char.ofNat b.toNat
  if b.toNat < 128 then Text.quotedChar quote c else '\\' :: 'x' :: Text.hexDigits 2 b.toNat

def shownBytes (data : List UInt8) : String :=
  let quote := if data.contains 39 && !data.contains 34 then '"' else '\''
  String.ofList ('b' :: quote :: data.flatMap (shownByte quote) ++ [quote])

/-- The parts of a timestamp, trailing zeros of the second and below left out. -/
def shownTime (t : Timestamp) : String :=
  let parts := [t.year, t.month, t.day, t.hour, t.minute]
  let parts := if t.micro != 0 then parts ++ [t.second, t.micro]
    else if t.second != 0 then parts ++ [t.second] else parts
  "datetime.datetime(" ++ String.intercalate ", " (parts.map fun n : Nat => showInt n) ++ ")"

mutual
/-- The form of a value inside lists and documents. -/
def shown : Value → String
  | .null => "None"
  | .bool b => if b then "True" else "False"
  | .int n => showInt n
  | .float x => x.text
  | .text s => Text.quoted s
  | .bytes data => shownBytes data
  | .id key => "ObjectId('" ++ key.hex ++ "')"
  | .time t => shownTime t
  | .list items => "[" ++ String.intercalate ", " (shownItems items) ++ "]"
  | .doc members => "\x7b" ++ String.intercalate ", " (shownMembers members) ++ "\x7d"

def shownItems : List Value → List String
  | [] => []
  | v :: vs => v.shown :: shownItems vs

def shownMembers : List (String × Value) → List String
  | [] => []
  | (name, v) :: rest => (Text.quoted name ++ ": " ++ v.shown) :: shownMembers rest
end

/-- The text of a value that stands by itself. -/
def plain : Value → String
  | .text s => s
  | .id key => key.hex
  | .time t => t.render " "
  | v => v.shown

end Value

end SqlGateway
