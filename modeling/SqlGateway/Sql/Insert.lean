import SqlGateway.Sql.Pieces
import SqlGateway.Sql.Table

/-!
# INSERT

An insertion names a table and, usually, its columns; each parenthesis behind `VALUES` is a row.  A row
becomes a document, and rows that do not fit the columns are passed over.
-/

namespace SqlGateway.Sql.Insert

open Text Pattern

inductive Failure where
  | noTable
  | noRows
  | noFittingRow
  | unreadable
  deriving DecidableEq, Repr

def Failure.message : Failure → String
  | noTable => "No se pudo extraer tabla"
  | noRows => "No se pudieron extraer valores"
  | noFittingRow => "No se pudo procesar ningún conjunto de valores válido"
  | unreadable => "No se pudo extraer valores"

structure Insertion where
  table : String
  documents : List Document

def tablePattern : Pattern :=
  phrase ["INSERT", "INTO"] ++ space ++ tableName ['(']

def ending : Pattern :=
  exactly ";" <|> finish

def columnsPattern : Pattern :=
  phrase ["INSERT", "INTO"] ++ space ++ many1 (solid ['(']) ++ gap ++ exactly "(" ++
    keep "columns" (few anyChar) ++ exactly ")" ++ gap ++ lit "VALUES" ++ gap ++
    keep "rows" (few anyChar) ++ ending

def plainPattern : Pattern :=
  phrase ["INSERT", "INTO"] ++ space ++ many1 (solid ['(']) ++ space ++ lit "VALUES" ++ gap ++
    keep "rows" (few anyChar) ++ ending

def rowPattern : Pattern :=
  exactly "(" ++ keep "row" (many1 (noneOf [')'])) ++ exactly ")"

def rows (s : List Char) : List (List (List Char)) :=
  ((rowPattern.findAll s).map fun m => splitValues (strip (m.get "row"))).filter
    fun row => !row.isEmpty

def columnNames (s : List Char) : List String :=
  (splitValues (strip s)).map fun name => String.ofList (bareName (strip name))

def document? (columns : List String) (row : List (List Char)) : Option Document :=
  if columns.length == row.length then
    some (Document.ofMembers (columns.zip (row.map literal)))
  else none

def numberedColumns (count : Nat) : List String :=
  (List.range count).map fun i => "column_" ++ toString (i + 1)

def numberedDocument (row : List (List Char)) : Document :=
  Document.ofMembers ((numberedColumns row.length).zip (row.map literal))

def read (statement : List Char) : Except Failure Insertion :=
  let s := strip statement
  match tablePattern.find? s with
  | none => .error .noTable
  | some m =>
    let table := String.ofList (lower (bareName (m.get "table")))
    match columnsPattern.find? s with
    | some m =>
      let columns := columnNames (m.get "columns")
      let rows := rows (strip (m.get "rows"))
      if rows.isEmpty then .error .noRows
      else
        let documents := rows.filterMap (document? columns)
        if documents.isEmpty then .error .noFittingRow else .ok ⟨table, documents⟩
    | none =>
      match plainPattern.find? s with
      | some m =>
        let rows := rows (strip (m.get "rows"))
        if rows.isEmpty then .error .noRows else .ok ⟨table, rows.map numberedDocument⟩
      | none => .error .unreadable

/-- An insertion as a document: a single one carries its values, several carry their documents. -/
def Insertion.toDocument (i : Insertion) : Document :=
  match i.documents with
  | [d] => [("operation", .text "INSERT"), ("table", .text i.table), ("values", .doc d)]
  | ds =>
    [("operation", .text "INSERT_MANY"), ("table", .text i.table),
      ("documents", .list (ds.map .doc)), ("count", .ofNat ds.length)]

/-- The reading of an insertion as a document; a failure is a document with its wording. -/
def describe (statement : List Char) : Document :=
  match read statement with
  | .ok i => i.toDocument
  | .error f => [("error", .text f.message)]

end SqlGateway.Sql.Insert
