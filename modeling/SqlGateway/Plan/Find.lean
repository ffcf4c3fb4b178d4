import SqlGateway.Plan.Aggregate

/-!
# Finding documents

A plain selection becomes a search with a filter, a projection, an order and a limit.  When a selected
field calls a function, the statement is aggregated instead.
-/

namespace SqlGateway.Plan

open Text

/-- The functions that are recognised when functions cannot be read. -/
def familiarFunctions : List String :=
  ["UPPER", "LOWER", "LENGTH", "CONCAT", "YEAR", "MONTH", "DAY", "NOW", "COUNT", "SUM", "AVG", "MIN",
    "MAX"]

def callsFunction (s : Statement) (field : Value) : Except Fault Bool := do
  let reader ← s.offers .functionReader
  let field := (← field.asText "upper").toList
  if reader then return Sql.Call.occurs field
  else return familiarFunctions.any fun name => hasPiece (name.toList ++ ['(']) (upper field)

def isEverything : Value → Bool
  | .doc d => Document.get d "field" == .text "*"
  | _ => false

/-- The projection of the selected fields, or nothing if one of them calls a function. -/
def projection? (s : Statement) (shown : Document) : List Value → Except Fault (Option Document)
  | [] => .ok (some shown)
  | .doc d :: rest => do
    match Document.get? d "field" with
    | some field =>
      let byname := (Document.get? d "alias").getD field
      if ← callsFunction s field then return none
      else projection? s (shown.set (← byname.asName) (.int 1)) rest
    | none => projection? s shown rest
  | _ :: rest => projection? s shown rest

def projectionOf (s : Statement) (fields : Value) : Except Fault (Option Document) := do
  match fields with
  | .list items => if items.any isEverything then return some [] else projection? s [] items
  | _ => return some []

def member? (name : String) (v : Value) : Document :=
  if v.isPresent then [(name, v)] else []

def find (s : Statement) : Planning Value := do
  let table ← s.table
  let filter ← s.filter
  let fields ← s.fields
  match ← projectionOf s fields with
  | none => aggregate s
  | some projection =>
    let order ← s.order
    let sort ← if order.isPresent then sortKeys order else pure .null
    let limit ← s.limit
    return .doc ([("operation", .text "find"), ("query", orEmpty filter)] ++
      member? "collection" table ++ member? "projection" (.doc projection) ++ member? "sort" sort ++
      (if limit == .null then [] else [("limit", limit)]) ++ (← Planning.warningMember))

end SqlGateway.Plan
