import SqlGateway.Sql.Literal

/-!
# Lists divided by commas

A comma divides a list where it stands outside quotes and parentheses.  One scan, `cutCommas`, serves
all the lists of a statement; they differ in what nests and in what becomes of the last piece.
-/

namespace SqlGateway.Sql

open Text

/-- Where a scan stands: inside which quote, and how deep in parentheses. -/
structure Nesting where
  quote : Option Char
  depth : Int
  deriving DecidableEq, Repr

namespace Nesting

def top : Nesting :=
  ⟨none, 0⟩

def divides (n : Nesting) : Bool :=
  n.quote.isNone && n.depth == 0

/-- Quotes close at the character that opened them; parentheses count outside quotes. -/
def step (n : Nesting) (c : Char) : Nesting :=
  match n.quote with
  | some q => if c == q then { n with quote := none } else n
  | none =>
    if isQuote c then { n with quote := some c }
    else if c == '(' then { n with depth := n.depth + 1 }
    else if c == ')' then { n with depth := n.depth - 1 }
    else n

/-- Only parentheses count. -/
def stepParens (n : Nesting) (c : Char) : Nesting :=
  if c == '(' then { n with depth := n.depth + 1 }
  else if c == ')' then { n with depth := n.depth - 1 }
  else n

/-- A quote, once open, stays open. -/
def stepOpenEnded (n : Nesting) (c : Char) : Nesting :=
  if n.quote.isNone && isQuote c then { n with quote := some c } else n

end Nesting

/-- A text cut at its dividing commas: the pieces before a comma, what follows the last one, and
where the scan ended. -/
structure Cut where
  pieces : List (List Char)
  last : List Char
  ending : Nesting

/-- Cuts a text at its dividing commas and trims the pieces; `current` is the open piece, given last
character first. -/
def cutCommas (step : Nesting → Char → Nesting) (n : Nesting) (current : List Char) :
    List Char → Cut
  | [] => ⟨[], strip current.reverse, n⟩
  | c :: rest =>
    if c == ',' && n.divides then
      let cut := cutCommas step n [] rest
      { cut with pieces := strip current.reverse :: cut.pieces }
    else cutCommas step (step n c) (c :: current) rest

/-- The values of a list, each of which has a comma behind it; one that is still open is dropped. -/
def splitValues (s : List Char) : List (List Char) :=
  (cutCommas .step .top [] (s ++ [','])).pieces

/-- The definitions of a list; blank ones are left out. -/
def splitDefinitions (s : List Char) : List (List Char) :=
  (cutCommas .step .top [] (s ++ [','])).pieces.filter fun piece => !(strip piece).isEmpty

/-- The arguments of a function; a last one that is empty is left out. -/
def splitArguments (s : List Char) : List (List Char) :=
  if (strip s).isEmpty then []
  else
    let cut := cutCommas .step .top [] s
    cut.pieces ++ if cut.last.isEmpty then [] else [cut.last]

/-- The columns of a table, in which quotes have no meaning; a last one that is empty is left out. -/
def splitColumns (s : List Char) : List (List Char) :=
  let cut := cutCommas .stepParens .top [] s
  cut.pieces ++ if cut.last.isEmpty then [] else [cut.last]

/-- The members of an `IN` list.  A quote never closes, so nothing from the first quoted member on is
listed. -/
def splitMembers (s : List Char) : List (List Char) :=
  if s.isEmpty then []
  else
    let cut := cutCommas .stepOpenEnded .top [] s
    cut.pieces ++ if cut.ending.divides then [cut.last] else []

end SqlGateway.Sql
