import SqlGateway.Store.Connection

/-!
# Collections with a schema

Creating a collection with a validator and indexes, and asking for the validator and the indexes of
a collection that exists.
-/

namespace SqlGateway.Store

open Connected (connection)

def selectedDatabase : Connected String := do
  match (← connection).selected? with
  | some database => return database
  | none => throw .notSelected

def place (database : String) (collection : Value) : Place :=
  ⟨database, collection.plain⟩

def optionMembers (options : Value) : Except Fault Document :=
  match options with
  | .doc d => .ok d
  | _ => .error (.misused (.notMembers options.kind))

/-! ### What is known about a collection -/

/-- How strictly documents are validated, and what happens to those that fail. -/
def validation (options : Value) : Except Fault (Value × Value) := do
  return (← options.memberOr "validationLevel" (.text "moderate"),
    ← options.memberOr "validationAction" (.text "warn"))

def readSchema (description : Value) : Except Fault Value := do
  let plain := Value.doc [("has_validator", .bool false)]
  if !(← description.mentions "options") then return plain
  let options ← description.need "options"
  if !(← options.mentions "validator") then return plain
  let validator ← options.need "validator"
  let (level, action) ← validation options
  return .doc [("has_validator", .bool true), ("validator", validator),
    ("validation_level", level), ("validation_action", action)]

/-- The validator of a collection, or null if nothing is known about the collection. -/
def schemaOf (collection : Value) : Connected Value :=
  Connected.orElse
    (do
      let database ← selectedDatabase
      match ← (← describe database collection).items with
      | [] => return .null
      | description :: _ => readSchema description)
    (return .null)

def readIndex (index : Value) : Except Fault Value := do
  return .doc [("name", ← index.member "name"), ("key", ← index.member "key"),
    ("unique", ← index.memberOr "unique" (.bool false)),
    ("sparse", ← index.memberOr "sparse" (.bool false))]

def readIndexes (reply : Value) : Except Fault (List Value) := do
  (← reply.items).mapM readIndex

/-- The indexes of a collection; none if they cannot be read. -/
def indexesOf (collection : Value) : Connected (List Value) :=
  Connected.orElse
    (do
      let database ← selectedDatabase
      readIndexes (← indexes (place database collection)))
    (return [])

/-! ### Creating a collection -/

def existing (collection : Value) : Connected Document := do
  let answer : Document :=
    [("acknowledged", .bool true), ("collection_created", .bool false),
      ("collection_name", collection), ("already_exists", .bool true),
      ("message", .text ("La colección '" ++ collection.plain ++ "' ya existe")),
      ("has_validator", .bool false), ("indexes_created", .list []), ("total_indexes", .int 0)]
  let answer :=
    match ← schemaOf collection with
    | .doc schema =>
      if (Document.get schema "has_validator").isPresent then
        (answer.set "has_validator" (.bool true)).set "existing_validator"
          (Document.get schema "validator")
      else answer
    | _ => answer
  let known ← indexesOf collection
  return (answer.set "existing_indexes" (.list known)).set "total_existing_indexes"
    (.ofNat known.length)

def keyList (keys : Document) : Value :=
  .list (keys.map fun key => .list [.text key.1, key.2])

def indexParts (index : Value) : Except Fault (Value × Value × Value) := do
  let keys ← (← index.need "key").members "items"
  return (keyList keys, ← index.memberOr "unique" (.bool false), ← index.member "name")

def addIndex (target : Place) (index : Value) : Access Value := do
  let (keys, unique, name) ← indexParts index
  createIndex target keys unique name

/-- Creates an index.  One that cannot be created is left out, provided that it is a document. -/
def tryIndex (target : Place) (index : Value) : Access (List Value) :=
  tryCatch
    (do
      let name ← addIndex target index
      return [.doc [("name", name), ("specification", index)]])
    (fun _ => do
      let _ ← index.member "name"
      return [])

def addIndexes (target : Place) (wanted : Value) : Access (List Value) := do
  if wanted.isPresent then return (← (← wanted.items).mapM (tryIndex target)).flatten
  else return []

def validatorInfo (options : Value) : Except Fault Value := do
  let (level, action) ← validation options
  return .doc [("validation_level", level), ("validation_action", action),
    ("has_schema", .bool (← (← options.need "validator").mentions "$jsonSchema"))]

def namesValidator (options : Value) : Except Fault Bool :=
  if options.isPresent then options.mentions "validator" else .ok false

def listed (names name : Value) : Except Fault Bool := do
  return (← names.items).contains name

def createNew (database : String) (collection options wanted : Value) : Access Document := do
  createCollection database collection
    (← if options.isPresent then optionMembers options else pure [])
  let made ← addIndexes (place database collection) wanted
  let names ← collectionNames database
  let validated ← namesValidator options
  let answer : Document :=
    [("acknowledged", .bool true), ("collection_created", .bool (← listed names collection)),
      ("collection_name", collection), ("already_exists", .bool false),
      ("has_validator", .bool validated), ("indexes_created", .list made),
      ("total_indexes", .ofNat made.length)]
  if validated then
    match validatorInfo options with
    | .ok info => return answer.set "validator_info" info
    | .error _ => return answer
  else return answer

def createWithSchema (collection options wanted : Value) : Connected Document := do
  let database ← selectedDatabase
  let names ← collectionNames database
  if ← listed names collection then existing collection
  else createNew database collection options wanted

def recreateWithSchema (collection options wanted : Value) : Connected Document := do
  match (← connection).database with
  | none => throw (.lacks "NoneType" "list_collection_names")
  | some database =>
    let names ← collectionNames database
    if ← listed names collection then dropCollection database collection
    createWithSchema collection options wanted

def insertSample (collection document : Value) : Connected Document :=
  tryCatch
    (do
      let database ← selectedDatabase
      let (key, stored) ← insertOne (place database collection) document
      return [("acknowledged", .bool true), ("inserted_id", .text key.plain),
        ("document", stored)])
    (fun fault => return [("acknowledged", .bool false), ("error", .text fault.message)])

end SqlGateway.Store
