import SqlGateway.Sql.Source

/-!
# The table of a statement

The table is the name behind the statement's keywords, without quotes and in small letters.
-/

namespace SqlGateway.Sql

open Text Pattern

/-- A name made of characters that are neither blank nor among `stops`, kept as `table`. -/
def tableName (stops : List Char) : Pattern :=
  keep "table" (many1 (solid stops))

def nameStops : List Char :=
  [',', ';', '(', ')']

/-- Where the table stands in a statement of a kind, the more exact pattern first. -/
def tablePatterns (kind : String) : List Pattern :=
  match kind with
  | "SELECT" =>
    [lit "FROM" ++ space ++ tableName nameStops, lit "FROM" ++ space ++ tableName [] ++ space]
  | "INSERT" =>
    [phrase ["INSERT", "INTO"] ++ space ++ tableName ['('],
      phrase ["INSERT", "INTO"] ++ space ++ tableName [] ++ space]
  | "UPDATE" =>
    [lit "UPDATE" ++ space ++ tableName nameStops, lit "UPDATE" ++ space ++ tableName [] ++ space]
  | "DELETE" =>
    [phrase ["DELETE", "FROM"] ++ space ++ tableName nameStops,
      phrase ["DELETE", "FROM"] ++ space ++ tableName [] ++ space]
  | "CREATE" =>
    [phrase ["CREATE", "TABLE"] ++ space ++ tableName ['('],
      phrase ["CREATE", "TABLE", "IF", "NOT", "EXISTS"] ++ space ++ tableName ['(']]
  | "DROP" => [phrase ["DROP", "TABLE"] ++ space ++ tableName [';']]
  | "ALTER" => [phrase ["ALTER", "TABLE"] ++ space ++ tableName [';']]
  | _ => []

def tableOfKind? (kind : Option String) (statement : List Char) : Option String :=
  let padded := ' ' :: strip statement ++ [' ']
  let found? := kind.bind fun kind =>
    (tablePatterns kind).findSome? fun p => (p.find? padded).map fun m => bareName (m.get "table")
  let found? := found? <|>
    if kind == some "SELECT" then Node.sourceBehindFrom? (Node.ofText statement) else none
  found?.map fun name => String.ofList (lower name)

def table? (statement : List Char) : Option String :=
  tableOfKind? (statementKind? statement) statement

end SqlGateway.Sql
