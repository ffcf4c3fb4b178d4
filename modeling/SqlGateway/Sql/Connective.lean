import SqlGateway.Text.Basic

/-!
# Connectives

`AND` and `OR` join conditions where they stand as words outside parentheses.  `joinedBy` tells
whether a connective does so in a text, and `splitAtConnective` cuts the text there.
-/

namespace SqlGateway.Sql

open Text

/-- Whether a text begins with the word, its case left aside, and a blank. -/
def startsWithWord : (word s : List Char) → Bool
  | [], c :: _ => isBlank c
  | w :: ws, c :: rest => sameLetter w c && startsWithWord ws rest
  | _, [] => false

/-- Whether a text begins with a blank, the word and a blank. -/
def startsConnective (word : List Char) : List Char → Bool
  | c :: rest => isBlank c && startsWithWord word rest
  | [] => false

def depthAfter (depth : Int) (c : Char) : Int :=
  if c == '(' then depth + 1 else if c == ')' then depth - 1 else depth

def isParen (c : Char) : Bool :=
  c == '(' || c == ')'

/-- Whether the connective stands at depth zero in a text that begins at the given depth. -/
def joinedFrom (word : List Char) (depth : Int) : List Char → Bool
  | [] => false
  | c :: rest =>
    (!isParen c && depth == 0 && startsConnective word (c :: rest)) ||
      joinedFrom word (depthAfter depth c) rest

def joinedBy (word s : List Char) : Bool :=
  joinedFrom word 0 s

/-- A piece in front of others, if it is not blank. -/
def consPiece (current : List Char) (pieces : List (List Char)) : List (List Char) :=
  let piece := strip current.reverse
  if piece.isEmpty then pieces else piece :: pieces

/-- The pieces between the connectives at depth zero.  `skip` characters belong to a connective that
was found, and `current` is the open piece, given last character first.  The blank behind a connective
may also open the next one. -/
def splitFrom (word : List Char) (depth : Int) (skip : Nat) (current : List Char) :
    List Char → List (List Char)
  | [] => consPiece current []
  | c :: rest =>
    match skip with
    | skip + 1 => splitFrom word depth skip current rest
    | 0 =>
      if !isParen c && depth == 0 && startsConnective word (c :: rest) then
        consPiece current (splitFrom word depth word.length [] rest)
      else splitFrom word (depthAfter depth c) 0 (c :: current) rest

def splitAtConnective (word s : List Char) : List (List Char) :=
  splitFrom word 0 0 [] (' ' :: s ++ [' '])

end SqlGateway.Sql
