import SqlGateway.Text.Blank
import SqlGateway.Text.Case
import SqlGateway.Text.Digit
import SqlGateway.Text.Word

/-!
# Cutting texts

Texts are read as lists of characters.  This module holds the ways in which they are trimmed, cut
at separators and searched for a fixed piece.
-/

namespace SqlGateway.Text

/-- A text can be given as a string. -/
instance coeChars : Coe String (List Char) := ⟨String.toList⟩

def stripBy (p : Char → Bool) (s : List Char) : List Char :=
  ((s.dropWhile p).reverse.dropWhile p).reverse

def strip (s : List Char) : List Char :=
  stripBy isBlank s

/-- Collects the words of a text whose open word is `current`, given last letter first. -/
def wordsFrom (current : List Char) : List Char → List (List Char)
  | [] => if current.isEmpty then [] else [current.reverse]
  | c :: rest =>
    if isBlank c then
      if current.isEmpty then wordsFrom [] rest else current.reverse :: wordsFrom [] rest
    else wordsFrom (c :: current) rest

def words (s : List Char) : List (List Char) :=
  wordsFrom [] s

/-- The pieces between the occurrences of the character `sep`; there is always one more piece than
there are separators. -/
def splitAtChar (sep : Char) : List Char → List (List Char)
  | [] => [[]]
  | c :: rest =>
    if c == sep then [] :: splitAtChar sep rest
    else
      match splitAtChar sep rest with
      | [] => [[c]]
      | piece :: pieces => (c :: piece) :: pieces

def cutAt? (needle : List Char) : List Char → Option (List Char × List Char)
  | [] => if needle.isEmpty then some ([], []) else none
  | c :: rest =>
    if needle.isPrefixOf (c :: rest) then some ([], (c :: rest).drop needle.length)
    else (cutAt? needle rest).map fun (before, after) => (c :: before, after)

def hasPiece (needle s : List Char) : Bool :=
  (cutAt? needle s).isSome

def substitute (f : Char → Option (List Char)) (s : List Char) : List Char :=
  s.flatMap fun c => (f c).getD [c]

def endsWith (tail s : List Char) : Bool :=
  tail.reverse.isPrefixOf s.reverse

/-- Whether a text is not empty and has digits only. -/
def allDigits (s : List Char) : Bool :=
  !s.isEmpty && s.all isDigit

end SqlGateway.Text
