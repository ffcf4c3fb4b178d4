import SqlGateway.Sql.Literal
import SqlGateway.Text.Pattern
import SqlGateway.Value.Access

/-!
# Joins

A join names a table, perhaps under another name, and a condition.  A join on the equality of two fields
becomes a look-up stage with the stages that its type asks for.
-/

namespace SqlGateway.Sql

open Text Pattern

inductive JoinCondition where
  | equality (leftTable leftField rightTable rightField : String)
  | complex (text : String)
  deriving DecidableEq, Repr

namespace JoinCondition

def equalityPattern : Pattern :=
  keep "leftTable" (many1 isWord) ++ exactly "." ++ keep "leftField" (many1 isWord) ++ gap ++
    exactly "=" ++ gap ++ keep "rightTable" (many1 isWord) ++ exactly "." ++
    keep "rightField" (many1 isWord)

/-- Reads a condition by the first equality of two fields in it. -/
def read (s : List Char) : JoinCondition :=
  match equalityPattern.find? s with
  | some m =>
    let part (name : String) : String := String.ofList (m.get name)
    .equality (part "leftTable") (part "leftField") (part "rightTable") (part "rightField")
  | none => .complex (String.ofList s)

def toDocument : JoinCondition → Document
  | equality leftTable leftField rightTable rightField =>
    [("type", .text "equality"), ("left_table", .text leftTable), ("left_field", .text leftField),
      ("right_table", .text rightTable), ("right_field", .text rightField),
      ("operator", .text "=")]
  | complex text =>
    [("type", .text "complex"), ("raw_condition", .text text), ("operator", .text "unknown")]

end JoinCondition

structure Join where
  index : Nat
  type : String
  table : String
  byname : String
  condition : JoinCondition
  conditionText : String
  deriving DecidableEq, Repr

namespace Join

/-! ### Reading -/

/-- A direction word, perhaps with `OUTER`, and the blanks behind it. -/
def direction (word : String) : Pattern :=
  lit word ++ space ++ opt (lit "OUTER" ++ space)

def words : Pattern :=
  opt (lit "INNER" ++ space) ++
    opt (oneOf [direction "LEFT", direction "RIGHT", direction "FULL", lit "CROSS" ++ space]) ++
    lit "JOIN"

def isTableChar (c : Char) : Bool :=
  isWord c || isNameQuote c || c == '.'

def aliasPattern : Pattern :=
  opt (space ++ opt (lit "AS" ++ space) ++ keep "alias" (many1 isWord))

def conditionEnd : Pattern :=
  oneOf
    [space ++ words ++ space, space ++ lit "WHERE" ++ space, space ++ phrase ["GROUP", "BY"] ++ space,
      space ++ phrase ["ORDER", "BY"] ++ space, space ++ lit "HAVING" ++ space,
      space ++ lit "LIMIT" ++ space, gap ++ exactly ";", gap ++ finish]

def joinPattern : Pattern :=
  keep "type" words ++ space ++ keep "table" (many1 isTableChar) ++ aliasPattern ++ space ++
    lit "ON" ++ space ++ keep "condition" (few anyChar) ++ ahead conditionEnd

def occurs (statement : List Char) : Bool :=
  (edge ++ words ++ space).occursIn statement

def types : List (String × String) :=
  [("INNER JOIN", "inner"), ("LEFT JOIN", "left"), ("LEFT OUTER JOIN", "left"),
    ("RIGHT JOIN", "right"), ("RIGHT OUTER JOIN", "right"), ("FULL JOIN", "full"),
    ("FULL OUTER JOIN", "full"), ("CROSS JOIN", "cross"), ("JOIN", "inner")]

/-- The type of a join by its words; other words stand for an inner join. -/
def typeOf (s : List Char) : String :=
  (types.lookup (String.ofList (strip (upper s)))).getD "inner"

def strategy (type : String) : String :=
  match type with
  | "left" => "lookup_preserve_null"
  | "right" => "lookup_swap_collections"
  | "full" => "lookup_union_strategy"
  | "cross" => "lookup_cartesian"
  | _ => "lookup_with_match"

def ofMatch (m : Match) (index : Nat) : Join :=
  let table := String.ofList (bareName (strip (m.get "table")))
  let condition := strip (m.get "condition")
  { index
    type := typeOf (strip (m.get "type"))
    table
    byname := match m.get? "alias" with
      | some byname => String.ofList byname
      | none => table
    condition := .read condition
    conditionText := String.ofList condition }

def read (statement : List Char) : List Join :=
  (joinPattern.findAll statement).zipIdx.map fun (m, index) => ofMatch m index

def toDocument (j : Join) : Document :=
  [("index", .ofNat j.index), ("type", .text j.type), ("table", .text j.table),
    ("alias", .text j.byname), ("condition", .doc j.condition.toDocument),
    ("raw_condition", .text j.conditionText), ("mongo_strategy", .text (strategy j.type))]

def describeAll (statement : List Char) : List Value :=
  (read statement).map fun j => .doc j.toDocument

def describe (statement : List Char) : Document :=
  let joins := describeAll statement
  [("has_joins", .bool (!joins.isEmpty)), ("join_count", .ofNat joins.length),
    ("joins", .list joins), ("requires_lookup", .bool (!joins.isEmpty))]

/-- The table behind `FROM`, up to the next clause or the end. -/
def mainPattern : Pattern :=
  lit "FROM" ++ space ++ keep "table" (many1 isTableChar) ++ aliasPattern ++ gap ++
    oneOf [words, lit "WHERE", phrase ["GROUP", "BY"], phrase ["ORDER", "BY"], lit "HAVING",
      lit "LIMIT", finish]

def mainTable? (statement : List Char) : Option Document :=
  (mainPattern.find? statement).map fun m =>
    let table := String.ofList (bareName (m.get "table"))
    let byname := match m.get? "alias" with
      | some byname => String.ofList byname
      | none => table
    [("table", .text table), ("alias", .text byname), ("is_main_table", .bool true)]

/-! ### Stages -/

def appended (v : Value) (tail : String) : Except Fault String :=
  match v with
  | .text s => .ok (s ++ tail)
  | _ => .error (.misused (.notText v.kind))

/-- The stages of a join.  A join on anything but an equality has none. -/
def stages (join : Value) : Except Fault (List Value) := do
  let type ← join.need "type"
  let condition ← join.need "condition"
  if (← condition.need "type") != .text "equality" then return []
  let table ← join.need "table"
  let left ← condition.need "left_field"
  let right ← condition.need "right_field"
  let joined ← appended (← join.need "alias") "_joined"
  let lookup : Value := .doc [("$lookup", .doc
    [("from", table), ("localField", left), ("foreignField", right), ("as", .text joined)])]
  let unwind (keepEmpty : Bool) : Value := .doc [("$unwind", .doc
    [("path", .text ("$" ++ joined)), ("preserveNullAndEmptyArrays", .bool keepEmpty)])]
  match type with
  | .text "inner" =>
    return [lookup, .doc [("$match", .doc [(joined, .doc [("$ne", .list [])])])], unwind false]
  | .text "left" => return [lookup, unwind true]
  | .text "right" =>
    return [lookup, .doc [("$addFields", .doc
      [("_right_join_note", .text "RIGHT JOIN requires swapping collections in query")])]]
  | _ => return [lookup]

def pipeline (joins : List Value) : Except Fault (List Value) := do
  return (← joins.mapM stages).flatten

/-- Adds to a look-up stage which index would serve it. -/
def hinted (stage : Value) : Except Fault Value := do
  if ← stage.mentions "$lookup" then
    let lookup ← stage.need "$lookup"
    let source ← lookup.need "from"
    let field ← lookup.need "foreignField"
    let hint := "Consider index on " ++ source.plain ++ "." ++ field.plain
    match stage, lookup with
    | .doc members, .doc d =>
      return .doc (Document.set members "$lookup" (.doc (Document.set d "_index_hint" (.text hint))))
    | _, _ => return stage
  else return stage

/-! ### Reports -/

def explain (join : Value) : Except Fault Value := do
  let type ← (← join.need "type").asText "upper"
  let table ← join.need "table"
  let condition ← join.need "condition"
  let simple := (← condition.need "type") == .text "equality"
  let start := upperString type ++ " JOIN with " ++ table.plain ++ " on "
  let sentence ←
    if simple then do
      let leftTable ← condition.need "left_table"
      let leftField ← condition.need "left_field"
      let rightTable ← condition.need "right_table"
      let rightField ← condition.need "right_field"
      pure (start ++ leftTable.plain ++ "." ++ leftField.plain ++ " = " ++ rightTable.plain ++ "." ++
        rightField.plain)
    else pure (start ++ "complex condition")
  return .doc
    [("join_index", ← join.need "index"), ("explanation", .text sentence),
      ("mongo_strategy", ← join.need "mongo_strategy"),
      ("complexity", .text (if simple then "simple" else "complex"))]

def explainAll (joins : List Value) : Except Fault Document := do
  let sentences ← joins.mapM explain
  let level :=
    if joins.length > 2 then "complex" else if joins.length > 1 then "moderate" else "simple"
  return [("total_joins", .ofNat joins.length), ("join_explanations", .list sentences),
    ("overall_complexity", .text level)]

def warnings (count : Nat) (j : Join) : List String :=
  (if j.type == "right" || j.type == "full" then
    ["JOIN tipo " ++ j.type ++ " requiere manejo especial en MongoDB"] else []) ++
  (if count > 3 then ["Múltiples JOINs pueden afectar el rendimiento"] else [])

def issues (j : Join) : List String :=
  match j.condition with
  | .complex _ =>
    ["Condición de JOIN compleja en tabla " ++ j.table ++ ": " ++ j.conditionText]
  | .equality .. => []

def validate (statement : List Char) : Document :=
  let joins := read statement
  let found := joins.flatMap issues
  let warned := joins.flatMap (warnings joins.length)
  [("is_valid", .bool found.isEmpty), ("is_optimal", .bool warned.isEmpty),
    ("issues", .texts found), ("warnings", .texts warned), ("join_count", .ofNat joins.length),
    ("complexity_score", .ofNat (joins.length + found.length * 2 + warned.length))]

def catalog : Document :=
  let entry (supported : Value) (stages performance : String) : Value :=
    .doc [("supported", supported), ("mongo_translation", .text stages),
      ("performance", .text performance)]
  [("supported_types", .doc
    [("INNER JOIN", entry (.bool true) "$lookup + $match to filter unmatched" "Good"),
      ("LEFT JOIN",
        entry (.bool true) "$lookup + $unwind with preserveNullAndEmptyArrays" "Good"),
      ("RIGHT JOIN",
        entry (.text "Limited") "Requires swapping collections or complex pipeline"
          "Requires optimization"),
      ("FULL OUTER JOIN",
        entry (.text "Complex") "Requires $unionWith or multiple pipelines"
          "May require MongoDB 4.4+"),
      ("CROSS JOIN",
        entry (.text "Limited") "$lookup without condition (cartesian product)"
          "Use with caution - can be expensive")]),
    ("limitations", .texts
      ["Complex join conditions with functions not fully supported",
        "Multiple joins may require optimization",
        "RIGHT and FULL OUTER JOINs require special handling",
        "Non-equality joins require custom implementation"]),
    ("recommendations", .texts
      ["Use INNER and LEFT JOINs when possible", "Ensure proper indexes on join fields",
        "Consider denormalization for frequently joined data",
        "Test performance with realistic data volumes"])]

end Join

end SqlGateway.Sql
