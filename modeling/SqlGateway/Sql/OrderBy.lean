import SqlGateway.Sql.Where

/-!
# ORDER BY and LIMIT

The order of the rows is a document that gives each field a direction, `1` upwards and `-1` downwards.
-/

namespace SqlGateway.Sql

open Text Pattern

namespace OrderBy

inductive Direction where
  | upwards
  | downwards
  deriving DecidableEq, Repr

def Direction.toValue : Direction → Value
  | upwards => .int 1
  | downwards => .int (-1)

/-- The clause, up to `LIMIT`, a semicolon or the end. -/
def clausePattern : Pattern :=
  one isBlank ++ phrase ["ORDER", "BY"] ++ space ++ keep "clause" (few anyChar) ++
    oneOf [space ++ lit "LIMIT", gap ++ exactly ";", gap ++ finish]

/-- A field and its direction; anything but `DESC` sorts upwards, and more than two words are
unreadable. -/
def readKey? (s : List Char) : Option (String × Direction) :=
  match words s with
  | [name] => some (String.ofList name, .upwards)
  | [name, word] =>
    some (String.ofList name, if isKeyword "DESC" word then .downwards else .upwards)
  | _ => none

/-- The sort keys of a clause; unreadable ones are passed over. -/
def readKeys (clause : List Char) : Document :=
  let clause := Where.dropSemicolon clause
  Document.ofMembers (((splitAtChar ',' clause).filterMap readKey?).map
    fun (name, direction) => (name, direction.toValue))

def read (statement : List Char) : Document :=
  match clausePattern.find? (Where.padded statement) with
  | some m => readKeys (strip (m.get "clause"))
  | none => []

end OrderBy

namespace Limit

def clausePattern : Pattern :=
  one isBlank ++ lit "LIMIT" ++ space ++ keep "count" (many1 isDecimal) ++
    oneOf [one isBlank, exactly ";", finish]

def read? (statement : List Char) : Option Int :=
  (clausePattern.find? (Where.padded statement)).bind fun m =>
    (Number.readInt (m.get "count")).toOption

end Limit

end SqlGateway.Sql
