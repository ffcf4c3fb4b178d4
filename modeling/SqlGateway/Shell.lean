import SqlGateway.Value.Access

/-!
# Plans as shell commands

A plan is written as the command that a user would type into the shell of the store.  Documents and
lists are spread over indented lines; names of operators stand without quotes.
-/

namespace SqlGateway.Shell

/-- Some spaces; none if the number is negative. -/
def spaces (n : Int) : String :=
  String.ofList (List.replicate n.toNat ' ')

def inQuotes (s : String) : String :=
  "\"" ++ s ++ "\""

def label (name : String) : String :=
  if ['$'].isPrefixOf name.toList then name ++ ": " else inQuotes name ++ ": "

def comma {α : Type} (rest : List α) : String :=
  if rest.isEmpty then "\n" else ",\n"

mutual
/-- A value whose lines are indented by `current`, inner ones by `indent` more. -/
def written (indent current : Int) : Value → String
  | .null => "null"
  | .bool b => if b then "true" else "false"
  | .text s => inQuotes s
  | .doc [] => "\x7b\x7d"
  | .doc (m :: ms) =>
    "\x7b\n" ++ writtenMembers indent current (m :: ms) ++ spaces (current - indent) ++ "\x7d"
  | .list [] => "[]"
  | .list (v :: vs) =>
    "[\n" ++ writtenItems indent current (v :: vs) ++ spaces (current - indent) ++ "]"
  | v => v.plain

def writtenMembers (indent current : Int) : List (String × Value) → String
  | [] => ""
  | (name, v) :: rest =>
    spaces current ++ label name ++ written indent (current + indent) v ++ comma rest ++
      writtenMembers indent current rest

def writtenItems (indent current : Int) : List Value → String
  | [] => ""
  | v :: rest =>
    spaces current ++ written indent (current + indent) v ++ comma rest ++
      writtenItems indent current rest
end

/-- A value where a document is expected; a list is written on one line. -/
def documentText (indent current : Int) (v : Value) : String :=
  match v with
  | .list _ => v.plain
  | _ => written indent current v

/-- A value where a list is expected; anything else is written on one line. -/
def listText (indent current : Int) (v : Value) : String :=
  match v with
  | .null => "null"
  | .list _ => written indent current v
  | _ => v.plain

def document (v : Value) : String :=
  documentText 2 2 v

def list (v : Value) : String :=
  listText 2 2 v

def find (collection : String) (plan : Value) : Except Fault String := do
  let filter ← plan.memberOr "query" (.doc [])
  let projection ← plan.member "projection"
  let sort ← plan.member "sort"
  let limit ← plan.member "limit"
  let skip ← plan.member "skip"
  return "// Consulta equivalente a SELECT en MongoDB\n" ++ "db." ++ collection ++ ".find(\n  " ++
    document filter ++ (if projection.isPresent then ",\n  " ++ document projection else "") ++ "\n)" ++
    (if sort.isPresent then ".sort(" ++ document sort ++ ")" else "") ++
    (if skip.isPresent then ".skip(" ++ skip.plain ++ ")" else "") ++
    (if limit == .null then "" else ".limit(" ++ limit.plain ++ ")") ++ ".pretty()"

def aggregate (collection : String) (plan : Value) : Except Fault String := do
  let pipeline ← plan.memberOr "pipeline" (.list [])
  return "// Consulta de agregación en MongoDB\n" ++ "db." ++ collection ++ ".aggregate(\n" ++
    list pipeline ++ "\n).pretty()"

def insert (collection : String) (plan : Value) : Except Fault String := do
  let inserted ← plan.memberOr "document" (.doc [])
  return "// Inserción de documento en MongoDB\n" ++ "db." ++ collection ++ ".insertOne(\n" ++
    document inserted ++ "\n)"

def insertMany (collection : String) (plan : Value) : Except Fault String := do
  let documents ← plan.memberOr "documents" (.list [])
  let count ← documents.length
  if !documents.isPresent then return "// No hay documentos para insertar en " ++ collection
  return "// Inserción de " ++ showInt count ++ " documentos en MongoDB\n" ++ "db." ++ collection ++
    ".insertMany(\n" ++ list documents ++ "\n)"

def update (collection : String) (plan : Value) : Except Fault String := do
  match ← plan.memberOr "query" (.doc []) with
  | .doc (m :: ms) =>
    let query : Value := .doc (m :: ms)
    let filter ← query.memberOr "query" (.doc [])
    let change ← query.memberOr "update" (.doc [])
    return "// Actualización de documentos en MongoDB\n" ++ "db." ++ collection ++
      ".updateMany(\n" ++ document filter ++ ",\n" ++ document change ++ "\n)"
  | _ => return "// Error: Formato de consulta update inválido"

def delete (collection : String) (plan : Value) : Except Fault String := do
  let filter ← plan.memberOr "query" (.doc [])
  return "// Eliminación de documentos en MongoDB\n" ++ "db." ++ collection ++ ".deleteMany(\n" ++
    document filter ++ "\n)"

def createCollection (collection : String) (plan : Value) : Except Fault String := do
  let options ← plan.memberOr "options" (.doc [])
  let head := "// Creación de colección en MongoDB\ndb.createCollection("
  if options.isPresent then
    return head ++ "\n  " ++ inQuotes collection ++ ",\n  " ++ document options ++ "\n)"
  else return head ++ inQuotes collection ++ ")"

def dropCollection (collection : String) : String :=
  "// Eliminación de colección en MongoDB\n" ++ "db." ++ collection ++ ".drop()"

def command (collection : Value) (plan : Value) : Except Fault String := do
  let operation ← plan.member "operation"
  if !operation.isPresent then
    return "// No se pudo generar la consulta para la shell de MongoDB"
  let _ ← operation.asName
  let name := collection.plain
  match operation with
  | .text "find" => find name plan
  | .text "aggregate" => aggregate name plan
  | .text "insert" => insert name plan
  | .text "INSERT_MANY" => insertMany name plan
  | .text "update" => update name plan
  | .text "delete" => delete name plan
  | .text "create_collection" => createCollection name plan
  | .text "drop_collection" => return dropCollection name
  | _ => return "// Operación '" ++ operation.plain ++ "' no soportada para la shell de MongoDB"

end SqlGateway.Shell
