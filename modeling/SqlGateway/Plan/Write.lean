import SqlGateway.Plan.Basic

/-!
# INSERT, UPDATE and DELETE

An insertion carries one document or several, an update a filter and the values to set, and a deletion
a filter.
-/

namespace SqlGateway.Plan

def insert (s : Statement) : Except Fault Value := do
  let table ← s.table
  let insertion ← s.insertion
  if !insertion.isPresent then throw (.refused .noInsertion)
  if (← insertion.member "operation") == .text "INSERT_MANY" then
    let documents ← insertion.memberOr "documents" (.list [])
    if !documents.isPresent then throw (.refused .noDocuments)
    let _ ← documents.length
    return .doc
      [("operation", .text "INSERT_MANY"), ("collection", table), ("documents", documents)]
  else
    let document ← insertion.memberOr "values" (.doc [])
    if !document.isPresent then throw (.refused .noInsertedValues)
    return .doc [("operation", .text "insert"), ("collection", table), ("document", document)]

def update (s : Statement) : Except Fault Value := do
  let table ← s.table
  let update ← s.update
  let filter ← s.filter
  if !update.isPresent then throw (.refused .noUpdatedValues)
  let values ← update.need "values"
  return .doc
    [("operation", .text "update"), ("collection", table),
      ("query", .doc [("query", orEmpty filter), ("update", .doc [("$set", values)])])]

def delete (s : Statement) : Except Fault Value := do
  let table ← s.table
  let filter ← s.filter
  return .doc [("operation", .text "delete"), ("collection", table), ("query", orEmpty filter)]

end SqlGateway.Plan
