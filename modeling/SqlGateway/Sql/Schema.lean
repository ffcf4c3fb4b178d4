import SqlGateway.Sql.Column
import SqlGateway.Value.Access

/-!
# Tables and their schemas

`CREATE TABLE` gives columns with types; from them comes a schema against which documents can be
checked.  `DROP TABLE` names a table, and `ALTER TABLE` is only recognised.
-/

namespace SqlGateway.Sql

open Text Pattern

structure StoredType where
  type : String
  bson : String
  format : Option String
  deriving DecidableEq, Repr

namespace StoredType

def fallback : StoredType :=
  ⟨"string", "string", none⟩

def table : List (String × StoredType) :=
  [("INT", ⟨"number", "int", none⟩),
    ("INTEGER", ⟨"number", "int", none⟩),
    ("BIGINT", ⟨"number", "long", none⟩),
    ("SMALLINT", ⟨"number", "int", none⟩),
    ("TINYINT", ⟨"number", "int", none⟩),
    ("DECIMAL", ⟨"number", "decimal", none⟩),
    ("NUMERIC", ⟨"number", "decimal", none⟩),
    ("FLOAT", ⟨"number", "double", none⟩),
    ("DOUBLE", ⟨"number", "double", none⟩),
    ("REAL", ⟨"number", "double", none⟩),
    ("VARCHAR", ⟨"string", "string", none⟩),
    ("CHAR", ⟨"string", "string", none⟩),
    ("TEXT", ⟨"string", "string", none⟩),
    ("LONGTEXT", ⟨"string", "string", none⟩),
    ("MEDIUMTEXT", ⟨"string", "string", none⟩),
    ("TINYTEXT", ⟨"string", "string", none⟩),
    ("DATE", ⟨"string", "date", some "date"⟩),
    ("DATETIME", ⟨"string", "date", some "date-time"⟩),
    ("TIMESTAMP", ⟨"string", "date", some "date-time"⟩),
    ("TIME", ⟨"string", "string", some "time"⟩),
    ("BOOLEAN", ⟨"boolean", "bool", none⟩),
    ("BOOL", ⟨"boolean", "bool", none⟩),
    ("JSON", ⟨"object", "object", none⟩),
    ("BLOB", ⟨"string", "binData", none⟩),
    ("LONGBLOB", ⟨"string", "binData", none⟩),
    ("MEDIUMBLOB", ⟨"string", "binData", none⟩),
    ("TINYBLOB", ⟨"string", "binData", none⟩)]

def ofName (name : String) : StoredType :=
  (table.lookup name).getD fallback

def toDocument (t : StoredType) : Document :=
  [("type", .text t.type), ("bsonType", .text t.bson)] ++
    match t.format with
    | some format => [("format", .text format)]
    | none => []

def catalog : Document :=
  [("numeric_types", .texts
    ["INT", "INTEGER", "BIGINT", "SMALLINT", "TINYINT", "DECIMAL", "NUMERIC", "FLOAT", "DOUBLE",
      "REAL"]),
    ("string_types", .texts ["VARCHAR", "CHAR", "TEXT", "LONGTEXT", "MEDIUMTEXT", "TINYTEXT"]),
    ("date_types", .texts ["DATE", "DATETIME", "TIMESTAMP", "TIME"]),
    ("boolean_types", .texts ["BOOLEAN", "BOOL"]),
    ("json_types", .texts ["JSON"]),
    ("binary_types", .texts ["BLOB", "LONGBLOB", "MEDIUMBLOB", "TINYBLOB"])]

end StoredType

namespace Schema

/-! ### Columns -/

/-- A column: its name, its type with perhaps a size, and what else is said of it. -/
def columnPattern : Pattern :=
  keep "name" (many1 isWord) ++ space ++ keep "type" (many1 isWord) ++
    opt (Column.nameList "size") ++ gap ++ keep "rest" (many inLine) ++ finish

def sizeNumber (s : List Char) : Except Fault Value :=
  match Number.readInt s with
  | .ok n => .ok (.int n)
  | .error e => .error (.number e)

/-- A size: a length, or a precision and a scale. -/
def readSize (s : List Char) : Except Fault Document := do
  match splitAtChar ',' s with
  | precision :: scale :: _ =>
    let precision ← sizeNumber (strip precision)
    let scale ← sizeNumber (strip scale)
    return [("precision", precision), ("scale", scale)]
  | _ => return [("length", ← sizeNumber s)]

def readDefault (s : List Char) (type : String) : Value :=
  let s := unquote s
  let asText : Value := .text (String.ofList s)
  if ["NULL", "CURRENT_TIMESTAMP", "NOW()"].contains (String.ofList (upper s)) then
    .text (String.ofList (upper s))
  else if ["INT", "INTEGER", "BIGINT", "SMALLINT", "TINYINT"].contains type then
    match Number.readInt s with
    | .ok n => .int n
    | .error _ => asText
  else if ["DECIMAL", "NUMERIC", "FLOAT", "DOUBLE", "REAL"].contains type then
    match Number.readDouble s with
    | .ok x => .float x
    | .error _ => asText
  else if ["BOOLEAN", "BOOL"].contains type then
    .bool (["TRUE", "1", "YES"].contains (String.ofList (upper s)))
  else asText

/-- `DEFAULT` and what follows up to a blank. -/
def defaultPattern : Pattern :=
  lit "DEFAULT" ++ space ++ keep "default" (one inLine ++ few inLine) ++ (one isBlank <|> finish)

def readColumn? (s : List Char) : Except Fault (Option Document) := do
  match columnPattern.matches? (strip s) with
  | none => return none
  | some m =>
    let type := String.ofList (upper (m.get "type"))
    let rest := m.get "rest"
    let column : Document :=
      [("name", .text (String.ofList (lower (m.get "name")))), ("sql_type", .text type),
        ("mongo_type", .doc (StoredType.ofName type).toDocument),
        ("nullable", .bool (!Column.mentions "NOT NULL" rest)),
        ("primary_key", .bool (Column.mentions "PRIMARY KEY" rest)),
        ("auto_increment", .bool (Column.mentions "AUTO_INCREMENT" rest))]
    let column ← match m.get? "size" with
      | some size => do pure (column.set "size" (.doc (← readSize size)))
      | none => pure column
    match defaultPattern.find? rest with
    | some d => return some (column.set "default" (readDefault (strip (d.get "default")) type))
    | none => return some column

def isConstraint (s : List Char) : Bool :=
  ["PRIMARY KEY", "FOREIGN KEY", "INDEX", "UNIQUE", "CHECK"].any fun word => Column.mentions word s

def readColumns (s : List Char) : Except Fault (List Document) := do
  let pieces := (splitDefinitions s).filter fun piece => !isConstraint piece
  return (← pieces.mapM readColumn?).filterMap id

/-! ### Constraints -/

def bareNames (s : List Char) : List String :=
  (splitAtChar ',' s).map fun name => String.ofList (bareName (strip name))

def constraints (s : List Char) : Document :=
  let primary := match Column.primaryKeyPattern.find? s with
    | some m => bareNames (m.get "columns")
    | none => []
  let foreign := (Column.foreignKeyPattern.findAll s).map fun m => Value.doc
    [("local_fields", .texts (bareNames (m.get "columns"))),
      ("reference_table", .text (String.ofList (bareName (m.get "table")))),
      ("reference_fields", .texts (bareNames (m.get "references")))]
  [("primary_keys", .texts primary), ("foreign_keys", .list foreign), ("unique_keys", .list []),
    ("indexes", .list [])]

/-! ### Schemas -/

def property (column : Value) : Except Fault (String × Value) := do
  let name ← column.need "name"
  let stored ← column.need "mongo_type"
  let bson ← stored.need "bsonType"
  let type ← column.need "sql_type"
  let rule : Document :=
    [("bsonType", bson),
      ("description", .text ("Column " ++ name.plain ++ " (" ++ type.plain ++ ")"))]
  let rule ←
    if ← column.mentions "size" then do
      let size ← column.need "size"
      if ← size.mentions "length" then
        if (← stored.need "type") == .text "string" then
          pure (rule.set "maxLength" (← size.need "length"))
        else pure rule
      else pure rule
    else pure rule
  let rule ←
    if ← column.mentions "default" then do pure (rule.set "default" (← column.need "default"))
    else pure rule
  return (← name.asName, .doc rule)

def required? (column : Value) : Except Fault (Option Value) := do
  if (← column.need "nullable").isPresent then return none else return some (← column.need "name")

def schema (columns : List Value) : Except Fault Document := do
  let rules ← columns.mapM fun column => do
    return (← property column, ← required? column)
  return [("$jsonSchema", .doc
    [("bsonType", .text "object"), ("title", .text "Generated schema from CREATE TABLE"),
      ("properties", .doc (Document.ofMembers (rules.map Prod.fst))),
      ("required", .list (rules.filterMap Prod.snd))])]

/-! ### Statements -/

def createWords : Pattern :=
  phrase ["CREATE", "TABLE"] ++ space ++ opt (phrase ["IF", "NOT", "EXISTS"] ++ space)

def createdPattern : Pattern :=
  createWords ++ keep "table" (many1 (solid ['(']))

/-- The definitions of a new table: all between the first and the last parenthesis. -/
def definitionsPattern : Pattern :=
  createWords ++ many1 (solid ['(']) ++ gap ++ exactly "(" ++ keep "definitions" (many anyChar) ++
    exactly ")"

def readCreate (statement : List Char) : Except Fault Document := do
  match createdPattern.find? statement with
  | none => throw (.refused .noCreatedTable)
  | some m =>
    let table := String.ofList (lower (bareName (m.get "table")))
    match definitionsPattern.find? statement with
    | none => throw (.refused .noCreatedColumns)
    | some m =>
      let definitions := strip (m.get "definitions")
      let columns := (← readColumns definitions).map Value.doc
      return [("operation", .text "CREATE_TABLE"), ("table", .text table),
        ("columns", .list columns), ("constraints", .doc (constraints definitions)),
        ("schema", .doc (← schema columns))]

def droppedPattern : Pattern :=
  phrase ["DROP", "TABLE"] ++ space ++ opt (phrase ["IF", "EXISTS"] ++ space) ++
    keep "table" (many1 (solid [';']))

def readDrop (statement : List Char) : Except Fault Document :=
  match droppedPattern.find? statement with
  | none => .error (.refused .noDroppedTable)
  | some m =>
    .ok [("operation", .text "DROP_TABLE"),
      ("table", .text (String.ofList (lower (bareName (m.get "table")))))]

def alter : Document :=
  [("operation", .text "ALTER_TABLE"),
    ("message", .text "ALTER TABLE requiere implementación específica para MongoDB")]

def read (statement : List Char) : Except Fault Document :=
  let capitals := strip (upper statement)
  if "CREATE TABLE".toList.isPrefixOf capitals then readCreate statement
  else if "DROP TABLE".toList.isPrefixOf capitals then readDrop statement
  else if "ALTER TABLE".toList.isPrefixOf capitals then .ok alter
  else .error (.refused (.notSchemaStatement (String.ofList statement)))

end Schema

end SqlGateway.Sql
