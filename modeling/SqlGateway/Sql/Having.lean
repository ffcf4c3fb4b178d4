import SqlGateway.Sql.SelectList
import SqlGateway.Sql.Where

/-!
# The HAVING clause

A `HAVING` clause compares totals.  It is read into a filter on the names that the totals get.
-/

namespace SqlGateway.Sql.Having

open Text Pattern

/-- The clause, whose characters are of the class `p`, up to the next clause or the end. -/
def clausePattern (p : Char → Bool) : Pattern :=
  edge ++ lit "HAVING" ++ space ++ keep "clause" (few p) ++
    oneOf [space ++ phrase ["ORDER", "BY"], space ++ lit "LIMIT", space ++ lit "UNION",
      gap ++ exactly ";", gap ++ finish]

def occurs (statement : List Char) : Bool :=
  (clausePattern inLine).occursIn statement

def totals : List String :=
  SelectList.totals ++ ["GROUP_CONCAT"]

/-- The name of what is compared: the name of a total's result, or a plain name. -/
def fieldName (s : List Char) : String :=
  let total? := totals.findSome? fun name =>
    ((SelectList.applied name).find? s).map fun m =>
      SelectList.resultName name (strip (m.get "inner"))
  total?.getD (String.ofList (lower (strip s)))

def simple? (s : List Char) : Option (String × Value) :=
  (Where.comparison? s).map fun (left, operator, right) =>
    (fieldName left, Where.demand operator (literal right))

def simple (s : List Char) : Document :=
  (simple? s).toList

def conditions (clause : List Char) : Document :=
  if joinedBy ['O', 'R'] clause then
    let parts := (splitAtConnective ['O', 'R'] clause).map simple
    let parts := parts.filter fun part => !part.isEmpty
    if parts.isEmpty then [] else [("$or", .list (parts.map .doc))]
  else if joinedBy ['A', 'N', 'D'] clause then
    (splitAtConnective ['A', 'N', 'D'] clause).foldl (fun filter part => filter.merge (simple part)) []
  else simple clause

/-- The filter of a statement's clause; without a clause it is empty. -/
def filter (statement : List Char) : Document :=
  match (clausePattern anyChar).find? statement with
  | some m => conditions (strip (m.get "clause"))
  | none => []

end SqlGateway.Sql.Having
