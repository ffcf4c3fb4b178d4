import SqlGateway.Sql.SelectList

/-!
# SELECT DISTINCT

Distinct rows are found by grouping on the selected fields and projecting them back.
-/

namespace SqlGateway.Sql.Distinct

open Text Pattern

def occurs (statement : List Char) : Bool :=
  (edge ++ phrase ["SELECT", "DISTINCT"] ++ space).occursIn statement

def listPattern : Pattern :=
  phrase ["SELECT", "DISTINCT"] ++ space ++ keep "items" (few anyChar) ++ space ++ lit "FROM"

/-- The fields in which rows have to differ, if they can be read. -/
def read? (statement : List Char) : Option (List SelectItem) :=
  (listPattern.find? statement).map fun m => SelectList.readItems (strip (m.get "items"))

def describe (statement : List Char) : Document :=
  match read? statement with
  | some items =>
    [("operation", .text "DISTINCT"),
      ("fields", .list (items.map fun item => .doc item.toDocument)),
      ("mongo_operation", .text "aggregate"), ("requires_grouping", .bool true)]
  | none => [("error", .text "No se pudo extraer campos DISTINCT")]

def stages (items : List SelectItem) : List Value :=
  let items := items.filter fun item => item.field != "" && item.field != "*"
  let bare (item : SelectItem) : String := String.ofList (bareName item.field.toList)
  let group := Document.ofMembers
    (items.map fun item => (bare item, .text ("$" ++ bare item)))
  let project := Document.ofMembers
    (items.map fun item => (item.byname.getD item.field, .text ("$_id." ++ bare item)))
  [.doc [("$group", .doc [("_id", .doc group)])],
    .doc [("$project", .doc (project.set "_id" (.int 0)))]]

/-- The stages of a statement, behind those given; unreadable fields leave nothing. -/
def pipeline (before : List Value) (statement : List Char) : List Value :=
  match read? statement with
  | some items => before ++ stages items
  | none => []

end SqlGateway.Sql.Distinct
