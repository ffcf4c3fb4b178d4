import SqlGateway.Plan.Basic

/-!
# CREATE TABLE and DROP TABLE

A new table becomes a collection with options, indexes for its keys and a sample document.
-/

namespace SqlGateway.Plan

def knownTable (s : Statement) : Except Fault Value := do
  let table ← s.table
  if table.isPresent then return table else throw (.refused .noCollection)

def index (keys : Document) (name : String) : Value :=
  .doc [("key", .doc keys), ("unique", .bool true), ("name", .text name)]

def primaryIndex (constraints : Value) : Except Fault (List Value) := do
  let keys ← constraints.member "primary_keys"
  if keys.isPresent then
    let names ← (← keys.items).mapM Value.asName
    return [index (Document.ofMembers (names.map fun name => (name, .int 1))) "primary_key_index"]
  else return []

def uniqueIndex (column : Value) : Except Fault (List Value) := do
  if (← column.memberOr "unique" (.bool false)).isPresent then
    let name ← column.need "name"
    return [index [(← name.asName, .int 1)] ("unique_" ++ name.plain ++ "_index")]
  else return []

def sampleOf : Value → Value
  | .text "number" => .int 0
  | .text "string" => .text ""
  | .text "boolean" => .bool false
  | _ => .null

/-- Adds a column's sample value: its default, or a value of its type where one is needed. -/
def addSample (sample : Document) (column : Value) : Except Fault Document := do
  let name ← column.need "name"
  let default ← if ← column.mentions "default" then column.need "default" else pure .null
  if default != .null then return sample.set (← name.asName) default
  else if (← column.memberOr "nullable" (.bool true)).isPresent then return sample
  else
    let type ← (← column.memberOr "mongo_type" (.doc [])).memberOr "type" (.text "string")
    return sample.set (← name.asName) (sampleOf type)

def requiredName (column : Value) : Except Fault (List Value) := do
  if (← column.memberOr "nullable" (.bool true)).isPresent then return []
  else return [← column.need "name"]

def anyCounting : List Value → Except Fault Bool
  | [] => .ok false
  | column :: rest => do
    if (← column.memberOr "auto_increment" (.bool false)).isPresent then return true
    else anyCounting rest

def tableWarnings (constraints : Value) (columns : List Value) : Except Fault (List String) := do
  let foreign ← constraints.member "foreign_keys"
  let counting ← anyCounting columns
  return (if foreign.isPresent then
      ["Foreign keys detectadas - MongoDB no las soporta nativamente",
        "Considera implementar referencias manuales o usar $lookup"]
    else []) ++
    (if counting then ["AUTO_INCREMENT detectado - usar ObjectId o secuencias manuales"] else [])

def createFrom (creation : Value) : Except Fault (Document × List String) := do
  let table ← creation.need "table_name"
  let columns ← creation.need "columns"
  let constraints ← creation.need "constraints"
  let schema ← creation.member "schema"
  let count ← columns.length
  let options : Document :=
    if columns.isPresent && schema.isPresent then
      [("validator", schema), ("validationLevel", .text "moderate"),
        ("validationAction", .text "warn")]
    else []
  let primary ← primaryIndex constraints
  let items ← columns.items
  let unique ← items.mapM uniqueIndex
  let sample ← items.foldlM addSample []
  let required ← items.mapM requiredName
  let primaryKeys ← constraints.memberOr "primary_keys" (.list [])
  let foreignKeys ← constraints.memberOr "foreign_keys" (.list [])
  let warnings ← tableWarnings constraints items
  let plan : Document :=
    [("operation", .text "create_collection_with_schema"), ("collection", table),
      ("options", .doc options),
      ("schema_info", .doc
        [("columns", columns), ("constraints", constraints), ("total_columns", .ofNat count),
          ("required_fields", .list required.flatten), ("primary_keys", primaryKeys),
          ("foreign_keys", foreignKeys)]),
      ("indexes_to_create", .list (primary ++ unique.flatten)),
      ("sample_document", if sample.isEmpty then .null else .doc sample)]
  return (if warnings.isEmpty then plan else plan ++ [("warnings", .texts warnings)], warnings)

def create (s : Statement) : Planning Value := do
  let creation ← s.creation
  if creation.isPresent then
    let (plan, warnings) ← createFrom creation
    modify (· ++ warnings)
    return .doc plan
  else
    let table ← knownTable s
    return .doc
      [("operation", .text "create_collection"), ("collection", table), ("options", .doc [])]

def drop (s : Statement) : Except Fault Value := do
  let table ← knownTable s
  return .doc [("operation", .text "drop_collection"), ("collection", table)]

end SqlGateway.Plan
