import SqlGateway.Sql.Call
import SqlGateway.Sql.Change
import SqlGateway.Sql.Feature
import SqlGateway.Sql.Join
import SqlGateway.Sql.OrderBy
import SqlGateway.Sql.Schema

/-!
# Statements

A statement answers questions about itself: its kind, its table, its filter and so on.  Each answer is
read from the text, unless it was supplied beforehand; a supplied answer also counts wherever other
answers build on it.
-/

namespace SqlGateway

open Sql Text Pattern

inductive Question where
  | kind
  | table
  | filter
  | fields
  | order
  | limit
  | grouping
  | insertion
  | update
  | deletion
  | creation
  | usesFunctions
  | functions
  | usesDistinct
  | distinct
  | usesHaving
  | having
  | isUnion
  | union
  | usesSubqueries
  | subqueries
  | usesJoins
  | joins
  | mainTable
  | joinValidity
  | complexity
  | features
  | functionReader
  | featureReader
  | joinReader
  deriving DecidableEq, Repr

/-- A statement with the answers that were supplied for it. -/
structure Statement where
  text : List Char
  supplied : List (Question × Value)

namespace Statement

def ofText (text : List Char) : Statement :=
  ⟨text, []⟩

/-- The supplied answer to a question, or else the reading. -/
def answer (s : Statement) (q : Question) (reading : Except Fault Value) : Except Fault Value :=
  match s.supplied.lookup q with
  | some v => .ok v
  | none => reading

/-- Whether a reader is there.  One that was supplied as something else cannot read. -/
def offers (s : Statement) (reader : Question) : Except Fault Bool :=
  match s.supplied.lookup reader with
  | none => .ok true
  | some v => if v.isPresent then .error (.lacks v.kind "read") else .ok false

/-- The supplied answer, or what a reader finds, or `default` without the reader. -/
def answerBy (s : Statement) (q reader : Question) (default : Value)
    (reading : Except Fault Value) : Except Fault Value :=
  s.answer q do if ← s.offers reader then reading else return default

/-! ### Single answers -/

def kind (s : Statement) : Except Fault Value :=
  s.answer .kind (.ok (.ofText? (statementKind? s.text)))

def table (s : Statement) : Except Fault Value :=
  s.answer .table do
    match ← s.kind with
    | .text kind => return .ofText? (tableOfKind? (some kind) s.text)
    | kind =>
      let _ ← kind.asName
      return .null

def filter (s : Statement) : Except Fault Value :=
  s.answer .filter (.ok (.doc (Where.filter s.text)))

def fields (s : Statement) : Except Fault Value :=
  s.answer .fields (.ok (.list ((SelectList.read s.text).map fun item => .doc item.toDocument)))

def order (s : Statement) : Except Fault Value :=
  s.answer .order (.ok (.doc (OrderBy.read s.text)))

def limit (s : Statement) : Except Fault Value :=
  s.answer .limit (.ok (.ofOption ((Limit.read? s.text).map .int)))

/-- The fields by which rows are grouped; only a supplied answer is known. -/
def grouping (s : Statement) : Except Fault Value :=
  s.answer .grouping (.ok .null)

def insertion (s : Statement) : Except Fault Value :=
  s.answer .insertion (.ok (.doc (Insert.describe s.text)))

def update (s : Statement) : Except Fault Value :=
  s.answer .update (.ok (.doc (Change.describeUpdate s.text)))

def deletion (s : Statement) : Except Fault Value :=
  s.answer .deletion (.ok (.doc (Change.describeDelete s.text)))

def usesFunctions (s : Statement) : Except Fault Value :=
  s.answerBy .usesFunctions .functionReader (.bool false) (.ok (.bool (Call.occurs s.text)))

def functions (s : Statement) : Except Fault Value :=
  s.answerBy .functions .functionReader (.list []) do
    return .list ((← Call.describe s.text).map .doc)

def usesDistinct (s : Statement) : Except Fault Value :=
  s.answerBy .usesDistinct .featureReader (.bool false) (.ok (.bool (Distinct.occurs s.text)))

def distinct (s : Statement) : Except Fault Value :=
  s.answerBy .distinct .featureReader (.doc []) (.ok (.doc (Distinct.describe s.text)))

def distinctStages (s : Statement) : Except Fault (List Value) := do
  if ← s.offers .featureReader then return Distinct.pipeline [] s.text else return []

def usesHaving (s : Statement) : Except Fault Value :=
  s.answerBy .usesHaving .featureReader (.bool false) (.ok (.bool (Having.occurs s.text)))

def having (s : Statement) : Except Fault Value :=
  s.answerBy .having .featureReader (.doc []) (.ok (.doc (Having.filter s.text)))

def isUnion (s : Statement) : Except Fault Value :=
  s.answerBy .isUnion .featureReader (.bool false) (.ok (.bool (Union.occurs s.text)))

def union (s : Statement) : Except Fault Value :=
  s.answerBy .union .featureReader (.doc []) (.ok (.doc (Union.describe s.text)))

def usesSubqueries (s : Statement) : Except Fault Value :=
  s.answerBy .usesSubqueries .featureReader (.bool false) (.ok (.bool (Subquery.occurs s.text)))

def subqueries (s : Statement) : Except Fault Value :=
  s.answerBy .subqueries .featureReader (.list []) (.ok (.list (Subquery.describeAll s.text)))

def usesJoins (s : Statement) : Except Fault Value :=
  s.answerBy .usesJoins .joinReader (.bool false) (.ok (.bool (Join.occurs s.text)))

def joins (s : Statement) : Except Fault Value :=
  s.answerBy .joins .joinReader (.list []) (.ok (.list (Join.describeAll s.text)))

def mainTable (s : Statement) : Except Fault Value :=
  s.answerBy .mainTable .joinReader .null (.ok (.ofOption ((Join.mainTable? s.text).map .doc)))

def joinValidity (s : Statement) : Except Fault Value :=
  s.answerBy .joinValidity .joinReader
    (.doc [("is_valid", .bool true), ("issues", .list []), ("warnings", .list [])])
    (.ok (.doc (Join.validate s.text)))

/-! ### New tables -/

def definitionsPattern : Pattern :=
  phrase ["CREATE", "TABLE"] ++ space ++ many1 isWord ++ gap ++ exactly "(" ++
    keep "definitions" (many anyChar) ++ exactly ")"

def describeCreation (table : Value) (text : List Char) : Document :=
  match definitionsPattern.find? text with
  | some m =>
    let definitions := strip (m.get "definitions")
    let columns := Column.readAll definitions
    [("table_name", table), ("columns", .list (columns.map fun c => .doc c.toDocument)),
      ("constraints", .doc (Column.constraints definitions)),
      ("total_columns", .ofNat columns.length),
      ("has_primary_key", .bool (columns.any Column.isPrimaryKey)), ("has_indexes", .bool false),
      ("original_definition", .text (String.ofList definitions))]
  | none =>
    [("table_name", table), ("columns", .list []), ("constraints", .doc []),
      ("total_columns", .int 0), ("has_primary_key", .bool false), ("has_indexes", .bool false),
      ("original_definition", .text ""), ("error", .text Refusal.noColumnDefinitions.message)]

def creation (s : Statement) : Except Fault Value :=
  s.answer .creation do return .doc (describeCreation (← s.table) s.text)

/-! ### Summaries -/

def weight (v : Value) (n : Nat) : Nat :=
  if v.isPresent then n else 0

def levelOf (score : Nat) : String :=
  if score == 0 then "simple" else if score ≤ 3 then "moderate" else "complex"

def complexity (s : Statement) : Except Fault Value :=
  s.answer .complexity do
    let functions ← s.usesFunctions
    let joins ← s.usesJoins
    let distinct ← s.usesDistinct
    let having ← s.usesHaving
    let union ← s.isUnion
    let subquery ← s.usesSubqueries
    let kind ← s.kind
    let score := weight functions 1 + weight joins 2 + weight distinct 1 + weight having 1 +
      weight union 3 + weight subquery 3
    return .doc
      [("complexity_level", .text (levelOf score)), ("complexity_score", .ofNat score),
        ("factors", .doc
          [("has_functions", functions), ("has_joins", joins), ("has_distinct", distinct),
            ("has_having", having), ("has_union", union), ("has_subquery", subquery),
            ("query_type", kind)]),
        ("requires_advanced_translation", .bool (score != 0))]

def features (s : Statement) : Except Fault Value :=
  s.answer .features do
    let kind ← s.kind
    let table ← s.table
    let filter ← s.filter
    let limit ← s.limit
    let usesFunctions ← s.usesFunctions
    let functions ← if usesFunctions.isPresent then s.functions else pure (.list [])
    let distinct ← s.usesDistinct
    let having ← s.usesHaving
    let union ← s.isUnion
    let subquery ← s.usesSubqueries
    let usesJoins ← s.usesJoins
    let joins ← if usesJoins.isPresent then s.joins else pure (.list [])
    let validity ← if usesJoins.isPresent then s.joinValidity else pure .null
    return .doc
      [("basic_info", .doc
        [("query_type", kind), ("table_name", table), ("has_where", .bool filter.isPresent),
          ("has_limit", .bool (limit != .null))]),
        ("functions", .doc [("has_functions", usesFunctions), ("function_list", functions)]),
        ("advanced_features", .doc
          [("has_distinct", distinct), ("has_having", having), ("has_union", union),
            ("has_subquery", subquery)]),
        ("joins", .doc
          [("has_joins", usesJoins), ("join_list", joins), ("join_validation", validity)])]

end Statement

end SqlGateway
