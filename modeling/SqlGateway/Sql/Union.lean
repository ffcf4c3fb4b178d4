import SqlGateway.Text.Pattern
import SqlGateway.Value.Basic

/-!
# UNION

A union is cut into its queries at each `UNION`.
-/

namespace SqlGateway.Sql.Union

open Text Pattern

def words : Pattern :=
  edge ++ lit "UNION" ++ opt (space ++ lit "ALL") ++ space

def occurs (statement : List Char) : Bool :=
  words.occursIn statement

/-- Whether some part keeps equal rows. -/
def keepsAll (statement : List Char) : Bool :=
  (edge ++ phrase ["UNION", "ALL"] ++ space).occursIn statement

def queries (statement : List Char) : List String :=
  (words.split statement).map fun query => String.ofList (strip query)

def notFound : Document :=
  [("error", .text "No se pudieron extraer partes de UNION")]

def describe (statement : List Char) : Document :=
  let queries := queries statement
  if queries.length < 2 then notFound
  else
    [("operation", .text "UNION"), ("union_all", .bool (keepsAll statement)),
      ("queries", .texts queries), ("mongo_operation", .text "aggregate"),
      ("requires_union_pipeline", .bool true)]

def advice (statement : List Char) : Document :=
  let queries := queries statement
  if queries.length < 2 then notFound
  else
    [("operation", .text "union"), ("requires_mongodb_44", .bool true),
      ("union_all", .bool (keepsAll statement)), ("queries", .texts queries),
      ("recommendation",
        .text "Use $unionWith operator or execute separate queries and merge results")]

end SqlGateway.Sql.Union
