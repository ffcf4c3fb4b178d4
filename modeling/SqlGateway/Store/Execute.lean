import SqlGateway.Store.Collection
import SqlGateway.Store.Result

/-!
# Carrying out plans

A plan names an operation of the store and its arguments.  An attempt at it may fail; three attempts
are made, and after a fault that tells of a broken connection the connection is opened again.
-/

namespace SqlGateway.Store

open Connected (connection)

/-! ### Operations -/

def runFind (target : Place) (plan : Value) : Access Value := do
  let filter ← plan.memberOr "query" (.doc [])
  let projection ← plan.member "projection"
  let keys ← plan.member "sort"
  let count ← plan.member "limit"
  let left ← plan.member "skip"
  let found ← find target filter projection
  if keys.isPresent then sort target (← keys.members "items")
  if left.isPresent then skip target left
  if count != .null then limit target count
  return textResults (.list (← found.items))

def runAggregate (target : Place) (plan : Value) : Access Value := do
  let found ← aggregate target (← plan.memberOr "pipeline" (.list []))
  return textResults (.list (← found.items))

def runInsert (target : Place) (plan : Value) : Access Value := do
  let (key, _) ← insertOne target (← plan.memberOr "document" (.doc []))
  return .doc [("inserted_id", .text key.plain)]

/-- Stores the documents of a plan; without any there is nothing to ask of the store. -/
def runInsertMany (target : Place) (plan : Value) : Access Value := do
  let documents ← plan.memberOr "documents" (.list [])
  let keys ← if (← documents.length) == 0 then pure [] else insertMany target documents
  return .doc [("acknowledged", .bool true),
    ("inserted_ids", .texts (keys.map Value.plain)), ("insertedCount", .ofNat keys.length)]

/-- An update that names no operator sets members. -/
def updateOperators (update : Value) : Except Fault Value := do
  if !update.isPresent then return update
  let members ← update.members "keys"
  if members.any fun member => member.1.toList.head? == some '$' then return update
  else return .doc [("$set", update)]

def runUpdate (target : Place) (plan : Value) : Access Value := do
  let change ← plan.memberOr "query" (.doc [])
  let filter ← change.memberOr "query" (.doc [])
  let update ← change.memberOr "update" (.doc [])
  let done ← updateMany target filter (← updateOperators update)
  return .doc [("matched_count", done.matched), ("modified_count", done.modified),
    ("upserted_id", if done.added.isPresent then .text done.added.plain else .null)]

def runDelete (target : Place) (plan : Value) : Access Value := do
  let count ← deleteMany target (← plan.memberOr "query" (.doc []))
  return .doc [("deleted_count", count)]

def created (collection : Value) : Value :=
  .doc [("created", .bool true), ("collection_name", collection)]

def runCreate (collection plan : Value) : Connected Value := do
  let options ← plan.memberOr "options" (.doc [])
  let wanted ← plan.memberOr "indexes_to_create" (.list [])
  let answer ← createWithSchema collection options wanted
  let sample ← plan.member "sample_document"
  if sample.isPresent then
    return .doc (answer.set "sample_document_inserted" (.doc (← insertSample collection sample)))
  else return .doc answer

def runOperation (target : Place) (operation collection plan : Value) : Access Value :=
  match operation with
  | .text "find" => runFind target plan
  | .text "aggregate" => runAggregate target plan
  | .text "insert" => runInsert target plan
  | .text "INSERT_MANY" => runInsertMany target plan
  | .text "update" => runUpdate target plan
  | .text "delete" => runDelete target plan
  | .text "create_collection" => return created collection
  | .text "drop_collection" => do
    drop target
    return .doc [("dropped", .bool true), ("collection_name", collection)]
  | _ => throw (.refused (.unsupportedOperation operation.plain))

def attempt (collection plan : Value) : Connected Value := do
  match (← connection).selected? with
  | none => throw (.refused .noDatabaseSelected)
  | some database =>
    let operation ← plan.member "operation"
    if operation == .text "create_collection_with_schema" then runCreate collection plan
    else
      let names ← collectionNames database
      if !(← listed names collection) && operation == .text "create_collection" then
        let options ← plan.memberOr "options" (.doc [])
        createCollection database collection (← optionMembers options)
        return created collection
      else runOperation (place database collection) operation collection plan

/-! ### Attempts -/

def tellsOfBreak (fault : Fault) : Bool :=
  let text := fault.message.toList
  Text.hasPiece "MongoClient after close".toList text ||
    Text.hasPiece "not connected".toList (Text.lower text)

def halfSecond : Value :=
  .float (.ofDecimal false 5 (-1))

/-- Makes up to `left` attempts at a program.  After a break the connection is opened again; the
last fault of another kind is passed on. -/
def retrying {α : Type} (x : Connected α) : (left : Nat) → Connected α
  | 0 => throw .attemptsExhausted
  | left + 1 => do
    match ← Connected.outcome x with
    | .ok a => return a
    | .error fault =>
      if tellsOfBreak fault then
        reconnect
        pause (.int 1)
        retrying x left
      else if left = 0 then throw fault
      else
        pause halfSecond
        retrying x left

def attemptLimit : Nat :=
  3

def execute (collection plan : Value) : Connected Value :=
  retrying (attempt collection plan) attemptLimit

end SqlGateway.Store
