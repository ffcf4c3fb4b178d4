import SqlGateway.Plan.Basic

/-!
# Aggregation

Statements that sort, group or keep distinct rows become a pipeline of stages: filter, distinct rows,
groups, filter on groups, projection, order, limit.
-/

namespace SqlGateway.Plan

open Text

def totals : List String :=
  ["COUNT", "SUM", "AVG", "MIN", "MAX", "GROUP_CONCAT"]

def functionName (call : Value) : Except Fault String := do
  (← call.memberOr "function_name" (.text "")).asText "upper"

def isTotal (call : Value) : Except Fault Bool := do
  return totals.contains (upperString (← functionName call))

def totalCalls (functions : Value) : Except Fault (List Value) := do
  if functions.isPresent then
    let calls ← functions.items
    let marked ← calls.mapM fun call => do return (call, ← isTotal call)
    return (marked.filter Prod.snd).map Prod.fst
  else return []

def totalField (args : Value) : Except Fault Value := do
  let s ← args.asText "strip"
  return .text (String.ofList ('$' :: strip s.toList))

/-- The accumulator of a total; joining texts has none. -/
def accumulator? (name : String) (args : Value) : Except Fault (Option Value) := do
  match name with
  | "COUNT" =>
    let s ← args.asText "strip"
    if strip s.toList == ['*'] then return some (stage "$sum" (.int 1))
    else
      let field ← totalField args
      return some (stage "$sum"
        (stage "$cond" (.list [stage "$ne" (.list [field, .null]), .int 1, .int 0])))
  | "SUM" => return some (stage "$sum" (← totalField args))
  | "AVG" => return some (stage "$avg" (← totalField args))
  | "MIN" => return some (stage "$min" (← totalField args))
  | "MAX" => return some (stage "$max" (← totalField args))
  | _ => return none

def resultName (name : String) (call : Value) : Except Fault Value :=
  call.memberOr "alias" (.text (lowerString name ++ "_result"))

def addTotal (group : Document) (call : Value) : Except Fault Document := do
  let name := upperString (← functionName call)
  let args ← call.memberOr "args" (.text "")
  let byname ← resultName name call
  match ← accumulator? name args with
  | some accumulator => return group.set (← byname.asName) accumulator
  | none => return group

def groupStage (s : Statement) : Except Fault Value := do
  match ← totalCalls (← s.functions) with
  | [] => return .null
  | calls => return stage "$group" (.doc (← calls.foldlM addTotal [("_id", .null)]))

def showTotal (shown : Document) (call : Value) : Except Fault Document := do
  let byname ← resultName (← functionName call) call
  return shown.set (← byname.asName) (.int 1)

def projectStage (s : Statement) : Except Fault Value := do
  match ← totalCalls (← s.functions) with
  | [] => return .null
  | calls => return stage "$project" (.doc (← calls.foldlM showTotal [("_id", .int 0)]))

def havingStage (s : Statement) : Except Fault (List Value) := do
  if (← s.usesHaving).isPresent then return stage? "$match" (← s.having) else return []

def distinctStage (s : Statement) : Except Fault (List Value) := do
  if (← s.usesDistinct).isPresent then s.distinctStages else return []

def sortStage (s : Statement) : Except Fault (List Value) := do
  let order ← s.order
  if order.isPresent then return stage? "$sort" (← sortKeys order) else return []

def present (v : Value) : List Value :=
  if v.isPresent then [v] else []

def pipeline (s : Statement) : Except Fault (List Value) := do
  let filter ← s.filter
  let distinct ← distinctStage s
  let group ← groupStage s
  let having ← havingStage s
  let project ← projectStage s
  let sort ← sortStage s
  let limit ← s.limit
  return stage? "$match" filter ++ distinct ++ present group ++ having ++ present project ++ sort ++
    limitStage limit

def aggregate (s : Statement) : Planning Value := do
  let table ← s.table
  let stages ← pipeline s
  return .doc ([("operation", .text "aggregate"), ("collection", table), ("pipeline", .list stages)] ++
    (← Planning.warningMember))

end SqlGateway.Plan
