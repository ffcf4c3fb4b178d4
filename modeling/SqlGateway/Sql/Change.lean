import SqlGateway.Fault
import SqlGateway.Sql.Insert

/-!
# UPDATE and DELETE

An update assigns values to fields, an update or deletion may carry a condition.  The condition that is
reported here is the plain reading of a single equality; the filter of a statement is read elsewhere.
-/

namespace SqlGateway.Sql.Change

open Text Pattern

inductive Failure where
  | noTable
  | noAssignments
  deriving DecidableEq, Repr

def Failure.message : Failure → String
  | noTable => "No se pudo extraer tabla"
  | noAssignments => "No se pudo extraer valores a actualizar"

def assignmentsPattern : Pattern :=
  lit "SET" ++ space ++ keep "assignments" (few anyChar) ++
    oneOf [one isBlank ++ lit "WHERE", one isBlank ++ exactly ";", last]

def conditionPattern : Pattern :=
  lit "WHERE" ++ space ++ keep "condition" (few anyChar) ++ ((one isBlank ++ exactly ";") <|> last)

/-- Cuts `field = value` at its first equality sign. -/
def equality? (s : List Char) : Option (String × Value) :=
  (cutAt? ['='] s).map fun (left, right) =>
    (String.ofList (lower (strip left)), literal (strip right))

/-- The fields and values of the assignments; pieces without an equality sign are passed over. -/
def assignments (s : List Char) : Document :=
  Document.ofMembers ((splitValues s).filterMap equality?)

/-- The condition of a statement if it is a single equality. -/
def plainCondition (s : List Char) : Document :=
  match conditionPattern.find? s with
  | none => []
  | some m =>
    let c := strip (m.get "condition")
    if hasPiece ['A', 'N', 'D'] (upper c) || hasPiece ['O', 'R'] (upper c) then []
    else (equality? c).toList

def tableBy? (p : Pattern) (s : List Char) : Option String :=
  (p.find? s).map fun m => String.ofList (lower (bareName (m.get "table")))

def describeUpdate (statement : List Char) : Document :=
  let s := strip statement
  match tableBy? (lit "UPDATE" ++ space ++ tableName nameStops) s with
  | none => [("error", .text Failure.noTable.message)]
  | some table =>
    match assignmentsPattern.find? s with
    | none => [("error", .text Failure.noAssignments.message)]
    | some m =>
      [("operation", .text "UPDATE"), ("table", .text table),
        ("values", .doc (assignments (strip (m.get "assignments")))),
        ("condition", .doc (plainCondition s))]

def describeDelete (statement : List Char) : Document :=
  let s := strip statement
  match tableBy? (phrase ["DELETE", "FROM"] ++ space ++ tableName nameStops) s with
  | none => [("error", .text Failure.noTable.message)]
  | some table =>
    [("operation", .text "DELETE"), ("table", .text table), ("condition", .doc (plainCondition s))]

def describe (statement : List Char) : Except Fault Document :=
  let s := strip statement
  let capitals := upper s
  if "INSERT".toList.isPrefixOf capitals then .ok (Insert.describe s)
  else if "UPDATE".toList.isPrefixOf capitals then .ok (describeUpdate s)
  else if "DELETE".toList.isPrefixOf capitals then .ok (describeDelete s)
  else .error (.refused (.notDataStatement (String.ofList s)))

end SqlGateway.Sql.Change
