import SqlGateway.Sql.Table
import SqlGateway.Sql.Pieces

/-!
# The list of selected fields

What stands between `SELECT` and `FROM`: fields divided by commas, each perhaps with another name
behind it.
-/

namespace SqlGateway.Sql

open Text Pattern

structure SelectItem where
  field : String
  byname : Option String
  deriving DecidableEq, Repr

namespace SelectItem

def everything : SelectItem :=
  ⟨"*", none⟩

def toDocument (item : SelectItem) : Document :=
  match item.byname with
  | some byname => [("field", .text item.field), ("alias", .text byname)]
  | none => [("field", .text item.field)]

def renamedPattern : Pattern :=
  keep "field" (few inLine) ++ space ++ lit "AS" ++ space ++ keep "alias" (many1 isWord) ++ finish

def followedPattern : Pattern :=
  keep "field" (few inLine) ++ space ++ keep "alias" (many1 isWord) ++ finish

def read (s : List Char) : SelectItem :=
  match renamedPattern.find? s <|> followedPattern.find? s with
  | some m => ⟨String.ofList (strip (m.get "field")), some (String.ofList (strip (m.get "alias")))⟩
  | none => ⟨String.ofList s, none⟩

end SelectItem

namespace SelectList

def readItems (s : List Char) : List SelectItem :=
  if strip s == ['*'] then [.everything] else (splitValues s).map .read

def listPattern : Pattern :=
  lit "SELECT" ++ space ++ keep "items" (few anyChar) ++ space ++ lit "FROM"

/-- The selected fields of a statement; where no list can be found, all fields are selected. -/
def read (statement : List Char) : List SelectItem :=
  match listPattern.find? (strip statement) with
  | some m => readItems (strip (m.get "items"))
  | none => [.everything]

/-- A table name that a clause or the end of the text follows. -/
def boundedTable : Pattern :=
  lit "FROM" ++ space ++ tableName nameStops ++
    ((space ++ oneOf [lit "WHERE", lit "GROUP BY", lit "HAVING", lit "ORDER BY", lit "LIMIT",
        lit "JOIN"]) <|>
      (gap ++ finish))

/-- The table behind `FROM`: one that a clause or the end follows, or else the first. -/
def table? (statement : List Char) : Option String :=
  let s := strip statement
  (boundedTable.find? s <|> (lit "FROM" ++ space ++ tableName nameStops).find? s).map
    fun m => String.ofList (lower (bareName (m.get "table")))

def describe (statement : List Char) : Document :=
  [("operation", .text "SELECT"),
    ("fields", .list ((read statement).map fun item => .doc item.toDocument)),
    ("table", .ofText? (table? statement))]

/-! ### Totals -/

def totals : List String :=
  ["COUNT", "SUM", "AVG", "MIN", "MAX"]

def hasTotals (items : List SelectItem) : Bool :=
  items.any fun item =>
    let field := upper item.field.toList
    totals.any fun name => hasPiece (name.toList ++ ['(']) field

structure Total where
  function : String
  field : String
  byname : String
  deriving DecidableEq, Repr

def Total.toDocument (t : Total) : Document :=
  [("function", .text t.function), ("field", .text t.field), ("alias", .text t.byname)]

def applied (name : String) : Pattern :=
  lit name ++ gap ++ exactly "(" ++ keep "inner" (few inLine) ++ exactly ")"

def resultName (function : String) (field : List Char) : String :=
  if field == ['*'] then lowerString function ++ "_all"
  else lowerString function ++ "_" ++ String.ofList (lower field)

/-- The totals that a field applies, of the given ones.  A result without a name is named after the
first of them. -/
def totalsOf (field : List Char) (byname : String) : List String → List Total
  | [] => []
  | name :: names =>
    match (applied name).find? field with
    | some m =>
      let inner := strip (m.get "inner")
      let byname := if byname.isEmpty then resultName name inner else byname
      ⟨lowerString name, String.ofList inner, byname⟩ :: totalsOf field byname names
    | none => totalsOf field byname names

def findTotals (items : List SelectItem) : List Total :=
  items.flatMap fun item => totalsOf item.field.toList (item.byname.getD "") totals

end SelectList

end SqlGateway.Sql
