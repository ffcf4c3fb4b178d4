import SqlGateway.Account.Permission
import SqlGateway.Http.Guard
import SqlGateway.Plan
import SqlGateway.Shell
import SqlGateway.Store.Execute

/-!
# Queries

How users look at databases, run statements and see what would be run.  A statement is run only for
a user whose token permits its kind.
-/

namespace SqlGateway.Http

open Account Store

/-! ### Looking around -/

def health : Connected Response := do
  let alive ← isAlive
  return ⟨200, .doc [("status", .text "ok"), ("version", .text "2.0.0"),
    ("services", .doc [("mongodb", .bool alive), ("auth", .bool true)])], []⟩

def listDatabasesFor (r : Request) : Connected Response :=
  withAccess r fun _ => catching toldError do
    Response.json 200 (.doc [("databases", .list (← availableDatabases))])

def listCollections (r : Request) (database : String) : Connected Response :=
  withAccess r fun _ => catching toldError do
    let names ← collections (.text database)
    let _ ← names.length
    Response.json 200 (.doc [("collections", names)])

def testConnection (r : Request) : Connected Response :=
  withAccess r fun _ => catching toldError do
    let alive ← isAlive
    let databases ← availableDatabases
    let current := (← Connected.connection).name
    Response.json 200 (.doc [("connected", .bool alive), ("databases", .list databases),
      ("current_database", current)])

def supportedSql (r : Request) : Connected Response :=
  withAccess r fun _ => return ⟨200, .doc [
    ("supported_operations", .texts ["SELECT", "INSERT", "UPDATE", "DELETE"]),
    ("supported_clauses", .texts ["WHERE", "ORDER BY", "LIMIT"]),
    ("supported_operators", .texts ["=", "!=", "<>", ">", "<", ">=", "<=", "LIKE", "IN", "NOT IN",
      "BETWEEN", "IS NULL", "IS NOT NULL"])], []⟩

/-! ### Denials -/

inductive Denial where
  | databaseRequired
  | noDatabase
  | statementRequired
  | unsupported (kind : Value)
  | forbidden (kind : Value)
  | noCollection
  deriving DecidableEq, Repr

namespace Denial

def status : Denial → Nat
  | forbidden _ => 403
  | _ => 400

def message : Denial → String
  | databaseRequired => "Se requiere el nombre de la base de datos"
  | noDatabase =>
    "No hay una base de datos seleccionada. Proporcione una base de datos en la solicitud " ++
      "o use el endpoint /connect primero"
  | statementRequired => "Se requiere una consulta SQL en el campo 'query'"
  | unsupported kind => "Tipo de consulta no soportado: " ++ kind.plain
  | forbidden kind => "No tienes permisos para realizar operaciones de tipo " ++ kind.plain
  | noCollection => "No se pudo determinar el nombre de la colección"

def response (d : Denial) : Response :=
  .error d.status d.message

end Denial

/-! ### Choosing a database -/

def connectTo (r : Request) : Connected Response :=
  withAccess r fun _ => catching toldError do
    let data ← r.document
    if !(← carries data "database") then return Denial.databaseRequired.response
    let database ← data.need "database"
    let collections ← select database
    Response.json 200 (.doc [
      ("message", .text ("Conectado a la base de datos " ++ database.plain)),
      ("collections", collections)])

/-- Selects the database that a request names.  Without a name one has to be selected already. -/
def chooseDatabase (data : Value) : Connected Bool := do
  if ← data.mentions "database" then
    let _ ← select (← data.need "database")
    return true
  else return (← Connected.connection).isSelected

/-! ### Statements -/

structure Ready where
  collection : Value
  plan : Value

def readStatement (query : Value) : Except Fault Statement :=
  match query with
  | .text s => .ok (.ofText s.toList)
  | _ => .error (.misused (.notStatement query.kind))

def permits (claims : Claims) (p : Permission) : Except Fault Bool := do
  let permissions := claims.permissions.getD (.doc [])
  return (← permissions.memberOr p.name (.bool false)).isPresent

/-- Plans a statement for the holder of a token. -/
def prepare (claims : Claims) (query : Value) : Except Fault (Except Denial Ready) := do
  let s ← readStatement query
  let kind ← s.kind
  match Permission.forStatement? kind with
  | none => return .error (.unsupported kind)
  | some permission =>
    if !(← permits claims permission) then return .error (.forbidden kind)
    let collection ← s.table
    if !collection.isPresent then return .error .noCollection
    let plan ← ((Plan.ofStatement s).run.run []).1
    return .ok ⟨collection, plan⟩

def liesInRequest : Fault → Bool
  | .number _ => true
  | .refused _ => true
  | .reported .value _ => true
  | _ => false

def statementError (fault : Fault) : Response :=
  .error (if liesInRequest fault then 400 else 500) fault.message

def runStatement (r : Request) : Connected Response :=
  withAccess r fun claims => catching statementError do
    let data ← r.document
    if !(← chooseDatabase data) then return Denial.noDatabase.response
    if !(← carries data "query") then return Denial.statementRequired.response
    match ← prepare claims (← data.need "query") with
    | .error denial => return denial.response
    | .ok ready => Response.json 200 (← execute ready.collection ready.plan)

def showCommand (r : Request) : Connected Response :=
  withAccess r fun claims => catching statementError do
    let data ← r.document
    if !(← carries data "query") then return Denial.statementRequired.response
    if !(← chooseDatabase data) then return Denial.noDatabase.response
    match ← prepare claims (← data.need "query") with
    | .error denial => return denial.response
    | .ok ready =>
      let command ← Shell.command ready.collection ready.plan
      Response.json 200 (.doc [("shell_query", .text command), ("mongo_query", ready.plan)])

end SqlGateway.Http
