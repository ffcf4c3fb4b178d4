import SqlGateway.Sql.Pieces
import SqlGateway.Text.Pattern

/-!
# Columns of a new table

The plain reading of a column definition: a name, a type, and the marks that the definition mentions.
Definitions that speak of keys or indexes are not columns.
-/

namespace SqlGateway.Sql

open Text Pattern

structure Column where
  name : String
  type : String
  isPrimaryKey : Bool
  isNotNull : Bool
  isUnique : Bool
  default : Option String
  deriving DecidableEq, Repr

namespace Column

def mentions (phrase : String) (s : List Char) : Bool :=
  hasPiece phrase.toList (upper s)

/-- The kind of value that a type holds, by the first word of the list that its name contains. -/
def valueKind (type : List Char) : String :=
  let has (word : String) : Bool := mentions word type
  if has "INT" then "int"
  else if has "VARCHAR" || has "TEXT" then "string"
  else if has "DECIMAL" || has "FLOAT" || has "DOUBLE" then "number"
  else if has "BOOLEAN" || has "BOOL" then "bool"
  else if has "DATE" || has "TIMESTAMP" then "date"
  else "mixed"

def defaultPattern : Pattern :=
  lit "DEFAULT" ++ space ++ keep "default" (many1 (solid []))

/-- Reads a column definition, which has at least a name and a type. -/
def read? (s : List Char) : Option Column :=
  match words s with
  | name :: type :: _ =>
    some
      { name := String.ofList name
        type := String.ofList type
        isPrimaryKey := mentions "PRIMARY KEY" s
        isNotNull := mentions "NOT NULL" s
        isUnique := mentions "UNIQUE" s
        default := (defaultPattern.find? s).map fun m => String.ofList (m.get "default") }
  | _ => none

def toDocument (c : Column) : Document :=
  [("name", .text c.name), ("type", .text c.type), ("is_primary_key", .bool c.isPrimaryKey),
    ("is_not_null", .bool c.isNotNull), ("is_unique", .bool c.isUnique),
    ("default_value", .ofText? c.default), ("mongo_type", .text (valueKind c.type.toList))]

/-- Whether a definition speaks of a key or an index. -/
def isConstraint (s : List Char) : Bool :=
  mentions "INDEX" s || mentions "KEY" s

def readAll (s : List Char) : List Column :=
  ((splitColumns s).filter fun piece => !isConstraint piece).filterMap read?

/-! ### Constraints -/

def nameList (name : String) : Pattern :=
  exactly "(" ++ keep name (many1 (noneOf [')'])) ++ exactly ")"

def primaryKeyPattern : Pattern :=
  phrase ["PRIMARY", "KEY"] ++ gap ++ nameList "columns"

def foreignKeyPattern : Pattern :=
  phrase ["FOREIGN", "KEY"] ++ gap ++ nameList "columns" ++ space ++ lit "REFERENCES" ++ space ++
    keep "table" (many1 isWord) ++ gap ++ nameList "references"

def listedNames (s : List Char) : List String :=
  (splitAtChar ',' s).map fun name => String.ofList (strip name)

def constraints (s : List Char) : Document :=
  let primary := match primaryKeyPattern.find? s with
    | some m => listedNames (m.get "columns")
    | none => []
  let foreign := (foreignKeyPattern.findAll s).map fun m => Value.doc
    [("columns", .texts (listedNames (m.get "columns"))),
      ("referenced_table", .text (String.ofList (m.get "table"))),
      ("referenced_columns", .texts (listedNames (m.get "references")))]
  [("primary_keys", .texts primary), ("foreign_keys", .list foreign), ("indexes", .list []),
    ("unique_constraints", .list [])]

end Column

end SqlGateway.Sql
