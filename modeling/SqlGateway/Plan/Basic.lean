import SqlGateway.Statement

/-!
# Planning

A plan is a document that says which operation of the store does the work of a statement.  Planning may
fail, and it collects warnings; the warnings stay when it fails.
-/

namespace SqlGateway

/-- A step of planning: it sees and extends the warnings, and it may fail. -/
abbrev Planning := ExceptT Fault (StateM (List String))

namespace Planning

def warn (warning : String) : Planning Unit :=
  modify (· ++ [warning])

/-- The member that carries the warnings so far; without any there is none. -/
def warningMember : Planning Document := do
  let warnings ← get
  return if warnings.isEmpty then [] else [("warnings", .texts warnings)]

end Planning

namespace Plan

def stage (name : String) (v : Value) : Value :=
  .doc [(name, v)]

def stage? (name : String) (v : Value) : List Value :=
  if v.isPresent then [stage name v] else []

def orEmpty (v : Value) : Value :=
  if v.isPresent then v else .doc []

def limitStage (limit : Value) : List Value :=
  if limit == .null then [] else [stage "$limit" limit]

/-- Adds one sort key: a document with `field` and `order`, or the name of a field. -/
def addSortKey (keys : Document) (key : Value) : Except Fault Document := do
  match key with
  | .doc d =>
    let direction := (Document.get? d "order").getD (.text "ASC")
    let field := Document.get d "field"
    if field.isPresent then
      let direction ← direction.asText "upper"
      let sign : Int := if Text.upperString direction == "DESC" then -1 else 1
      return keys.set (← field.asName) (.int sign)
    else return keys
  | .text name => return keys.set name (.int 1)
  | _ => return keys

def sortKeys (order : Value) : Except Fault Value := do
  match order with
  | .list keys => return .doc (← keys.foldlM addSortKey [])
  | _ => return order

end Plan

end SqlGateway
