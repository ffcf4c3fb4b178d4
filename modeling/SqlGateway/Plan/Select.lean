import SqlGateway.Plan.Find
import SqlGateway.Plan.Joined

/-!
# SELECT

Which operation does the work of a selection: unions first, then joins, then whatever sorts or groups;
all else is a plain search.
-/

namespace SqlGateway.Plan

def union (s : Statement) : Planning Value := do
  let union ← s.union
  if ← union.mentions "error" then
    throw (.refused (.unionFailed (← union.need "error").plain))
  let table ← s.table
  let all ← union.member "union_all"
  let queries ← union.memberOr "queries" (.list [])
  let warnings ← get
  return .doc
    [("operation", .text "union"), ("collection", table),
      ("union_type", .text (if all.isPresent then "union_all" else "union")), ("queries", queries),
      ("warnings", .texts (warnings ++
        ["UNION requiere MongoDB 4.4+ con $unionWith",
          "Alternativamente, ejecutar queries separadas y unir resultados"])),
      ("mongodb_version_required", .text "4.4+"),
      ("alternative_strategy", .text "separate_queries")]

/-- Whether some call applies one of the totals; the first one settles it. -/
def anyTotal : List Value → Except Fault Bool
  | [] => .ok false
  | call :: rest => do if ← isTotal call then return true else anyTotal rest

def isGrouped (grouping : Value) : Except Fault Bool := do
  if grouping.isPresent then return (← grouping.length) > 0 else return false

def select (s : Statement) : Planning Value := do
  let _ ← s.table
  let _ ← s.fields
  let _ ← s.filter
  let functions ← s.usesFunctions
  let joins ← s.usesJoins
  let distinct ← s.usesDistinct
  let having ← s.usesHaving
  let isUnion ← s.isUnion
  let _ ← s.usesSubqueries
  let order ← s.order
  let totals ← if functions.isPresent then do anyTotal (← (← s.functions).items) else pure false
  let grouped ← isGrouped (← s.grouping)
  if isUnion.isPresent then
    Planning.warn "UNION detectado - requiere MongoDB 4.4+ o queries separadas"
    union s
  else if joins.isPresent then joined s
  else if totals || grouped || having.isPresent || distinct.isPresent || order.isPresent then
    aggregate s
  else find s

end SqlGateway.Plan
