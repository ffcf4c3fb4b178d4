import SqlGateway.Sql.Connective
import SqlGateway.Sql.Pieces
import SqlGateway.Text.Pattern

/-!
# The WHERE clause

A `WHERE` clause is read into a filter document.  `OR` is split before `AND`; what remains is a simple
condition: `BETWEEN`, `IN`, `LIKE`, `IS NULL` or a comparison.
-/

namespace SqlGateway.Sql.Where

open Text Pattern

def isFieldChar (c : Char) : Bool :=
  isWord c || c == '.'

def field : Pattern :=
  keep "field" (many1 isFieldChar)

def ending : Pattern :=
  (gap ++ exactly ";") <|> (gap ++ finish)

/-- The clause: what follows `WHERE`, up to the next clause or the end. -/
def clausePattern : Pattern :=
  one isBlank ++ lit "WHERE" ++ space ++ keep "clause" (few anyChar) ++
    oneOf
      [space ++ phrase ["GROUP", "BY"], space ++ lit "HAVING", space ++ phrase ["ORDER", "BY"],
        space ++ lit "LIMIT", space ++ lit "OFFSET", gap ++ exactly ";", gap ++ finish]

def padded (s : List Char) : List Char :=
  ' ' :: strip s ++ [' ']

def dropSemicolon (s : List Char) : List Char :=
  if endsWith [';'] s then strip s.dropLast else s

def clause? (statement : List Char) : Option (List Char) :=
  (clausePattern.find? (padded statement)).map fun m => dropSemicolon (strip (m.get "clause"))

/-! ### Simple conditions -/

def betweenPattern : Pattern :=
  field ++ space ++ lit "BETWEEN" ++ space ++ keep "low" (few inLine) ++ space ++ lit "AND" ++
    space ++ keep "high" (few inLine) ++ ending

def inPattern : Pattern :=
  field ++ space ++ lit "IN" ++ space ++ exactly "(" ++ keep "values" (few inLine) ++ exactly ")"

def notInPattern : Pattern :=
  field ++ space ++ lit "NOT" ++ space ++ lit "IN" ++ space ++ exactly "(" ++
    keep "values" (few inLine) ++ exactly ")"

def likePattern : Pattern :=
  field ++ space ++ lit "LIKE" ++ space ++ keep "pattern" (few inLine) ++ ending

def isNullPattern : Pattern :=
  field ++ space ++ phrase ["IS", "NULL"] ++ ending

def isNotNullPattern : Pattern :=
  field ++ space ++ phrase ["IS", "NOT", "NULL"] ++ ending

def operand (s : List Char) : Value :=
  literal (trimLiteral s)

def operands (s : List Char) : Value :=
  .list ((splitMembers (strip s)).map operand)

/-- The search expression of a `LIKE` pattern: `%` stands for any text and `_` for any character. -/
def likeExpression (pattern : List Char) : List Char :=
  let p := trimLiteral pattern
  let p := if isEnclosed p then inner p else p
  substitute
    (fun c => if c == '%' then some ['.', '*'] else if c == '_' then some ['.'] else none) p

/-- The comparison signs in the order in which they are tried, each with its operator; equality has
none. -/
def comparisons : List (String × Option String) :=
  [(">=", some "$gte"), ("<=", some "$lte"), ("<>", some "$ne"), ("!=", some "$ne"), ("=", none),
    (">", some "$gt"), ("<", some "$lt")]

/-- The first comparison sign that occurs, with the texts on both sides and its operator. -/
def comparison? (s : List Char) : Option (List Char × Option String × List Char) :=
  comparisons.findSome? fun (sign, operator) =>
    (cutAt? sign.toList s).map fun (left, right) => (strip left, operator, strip right)

def demand (operator : Option String) (v : Value) : Value :=
  match operator with
  | some name => .doc [(name, v)]
  | none => v

def simple? (condition : List Char) : Option (String × Value) :=
  let s := dropSemicolon (strip condition)
  let name (m : Match) : String := String.ofList (m.get "field")
  if let some m := betweenPattern.find? s then
    some (name m, .doc [("$gte", operand (m.get "low")), ("$lte", operand (m.get "high"))])
  else if let some m := inPattern.find? s then
    some (name m, .doc [("$in", operands (m.get "values"))])
  else if let some m := notInPattern.find? s then
    some (name m, .doc [("$nin", operands (m.get "values"))])
  else if let some m := likePattern.find? s then
    let expression := String.ofList (likeExpression (m.get "pattern"))
    some (name m, .doc [("$regex", .text expression), ("$options", .text "i")])
  else if let some m := isNullPattern.find? s then
    some (name m, .doc [("$exists", .bool false)])
  else if let some m := isNotNullPattern.find? s then
    some (name m, .doc [("$exists", .bool true)])
  else
    (comparison? s).map fun (left, operator, right) =>
      (String.ofList left, demand operator (operand right))

def addSimple (condition : List Char) (filter : Document) : Document :=
  match simple? condition with
  | some (name, v) => filter.set name v
  | none => filter

/-- Adds conditions to a filter; splits are nested at most `depth` deep. -/
def addWithin : (depth : Nat) → (conditions : List Char) → (filter : Document) → Document
  | 0, conditions, filter => addSimple conditions filter
  | depth + 1, conditions, filter =>
    let s := strip conditions
    if joinedBy ['O', 'R'] s then
      let parts := (splitAtConnective ['O', 'R'] s).map fun part => addWithin depth part []
      let parts := parts.filter fun part => !part.isEmpty
      if parts.isEmpty then filter else filter.set "$or" (.list (parts.map .doc))
    else if joinedBy ['A', 'N', 'D'] s then
      (splitAtConnective ['A', 'N', 'D'] s).foldl
        (fun filter part => filter.merge (addWithin depth part [])) filter
    else addSimple s filter

def addConditions (conditions : List Char) (filter : Document) : Document :=
  addWithin (conditions.length + 1) conditions filter

/-- The filter of a statement's `WHERE` clause; without a clause it is empty. -/
def filter (statement : List Char) : Document :=
  match clause? statement with
  | some clause => if clause.isEmpty then [] else addConditions clause []
  | none => []

end SqlGateway.Sql.Where
