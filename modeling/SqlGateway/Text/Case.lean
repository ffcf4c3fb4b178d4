import SqlGateway.Text.CaseTable

/-!
# Capital and small letters

`upper` and `lower` change the case of a text in every script.  A letter may become several
characters (`ß` becomes `SS`), and a capital sigma becomes the final form `ς` at the end of a word.
-/

namespace SqlGateway.Text

def upperChar (c : Char) : List Char :=
  if c.toNat < 128 then [c.toUpper]
  else
    match longCapitals.find? fun entry => entry.1 == c.toNat with
    | some entry => entry.2.map Char.ofNat
    | none => [Char.ofNat (shiftBy capitalRuns c.toNat)]

def upper (s : List Char) : List Char :=
  s.flatMap upperChar

/-- The small form of a character, its neighbours left aside. -/
def lowerChar (c : Char) : List Char :=
  if c.toNat < 128 then [c.toLower]
  else if c.toNat == 304 then ['i', Char.ofNat 775]
  else [Char.ofNat (shiftBy smallRuns c.toNat)]

/-- Whether the nearest character that is not passed over has case. -/
def nearCased (s : List Char) : Bool :=
  match s.find? fun c => !casePassedOver.has c.toNat with
  | some c => casedRanges.has c.toNat
  | none => false

/-- The small form of a text that follows `before`, whose characters are given nearest first. -/
def lowerAfter (before : List Char) : List Char → List Char
  | [] => []
  | c :: rest =>
    let small :=
      if c.toNat == 931 then
        [Char.ofNat (if nearCased before && !nearCased rest then 962 else 963)]
      else lowerChar c
    small ++ lowerAfter (c :: before) rest

def lower (s : List Char) : List Char :=
  lowerAfter [] s

def upperString (s : String) : String :=
  String.ofList (upper s.toList)

def lowerString (s : String) : String :=
  String.ofList (lower s.toList)

/-- Whether `c` is the letter `letter`, its case left aside.  Besides the two cases of a letter, the
long `ſ` counts as an `s`, the Kelvin sign as a `k`, and the dotless `ı` and dotted `İ` as an `i`. -/
def sameLetter (letter c : Char) : Bool :=
  c == letter.toLower || c == letter.toUpper ||
    (letter.toLower == 's' && c.toNat == 383) ||
    (letter.toLower == 'k' && c.toNat == 8490) ||
    (letter.toLower == 'i' && (c.toNat == 304 || c.toNat == 305))

end SqlGateway.Text
