import SqlGateway.Fault
import SqlGateway.Sql.Builtin
import SqlGateway.Sql.Pieces
import SqlGateway.Text.Pattern

/-!
# Function calls

The calls of built-in functions in a text, and the expressions of the document store that they stand
for.  A call reaches up to the first closing parenthesis on its line.
-/

namespace SqlGateway.Sql

open Text Pattern

namespace Call

def reference (field : List Char) : Value :=
  .text (String.ofList ('$' :: field))

def wholeNumber (s : List Char) : Except Fault Int :=
  (Number.readInt s).mapError .number

def stripQuotes (s : List Char) : List Char :=
  stripBy isQuote s

def verbatim (operator : String) (args : List Char) : Value :=
  .doc [(operator, .text (String.ofList args))]

def dateExpression (category : Option Category) (operator : String) (args : List Char) : Value :=
  match category with
  | some .currentDate => .text "$$NOW"
  | some .dateExtract => .doc [(operator, reference (unquote args))]
  | some .dateFormat =>
    .doc [("$dateToString",
      .doc [("format", .text "%Y-%m-%d"), ("date", reference (unquote args))])]
  | _ => verbatim operator args

/-- An argument of a concatenation: a text in single quotes stands for itself. -/
def concatenated (arg : List Char) : Value :=
  if enclosedBy '\'' arg then .text (String.ofList (inner arg)) else reference (unquote arg)

/-- The part of a text that a function extracts, counted from zero.  A function without enough
arguments gives nothing. -/
def extraction? (name operator : String) (args : List (List Char)) :
    Except Fault (Option Value) := do
  match upperString name, args with
  | "SUBSTRING", field :: start :: length :: _ =>
    let start ← wholeNumber start
    let length ← wholeNumber length
    return some (.doc [(operator,
      .list [reference (unquote field), .int (start - 1), .int length])])
  | "LEFT", field :: length :: _ =>
    let length ← wholeNumber length
    return some (.doc [(operator, .list [reference (unquote field), .int 0, .int length])])
  | "RIGHT", field :: length :: _ =>
    let length ← wholeNumber length
    let field := reference (unquote field)
    return some (.doc [("$substr",
      .list [field, .doc [("$subtract", .list [.doc [("$strLenCP", field)], .int length])],
        .int length])])
  | _, _ => return none

def stringExpression (name : String) (category : Option Category) (operator : String)
    (args : List Char) : Except Fault Value := do
  match category with
  | some .stringTransform | some .stringInfo =>
    return .doc [(operator, reference (unquote args))]
  | some .stringCombine =>
    return .doc [(operator, .list ((splitArguments args).map concatenated))]
  | some .stringExtract =>
    return (← extraction? name operator (splitArguments args)).getD (verbatim operator args)
  | some .stringClean =>
    return .doc [(operator, .doc [("input", reference (unquote args))])]
  | some .stringModify =>
    match splitArguments args with
    | field :: old :: new :: _ =>
      return .doc [(operator, .doc
        [("input", reference (unquote field)),
          ("find", .text (String.ofList (stripQuotes old))),
          ("replacement", .text (String.ofList (stripQuotes new)))])]
    | _ => return verbatim operator args
  | some .stringSearch =>
    match splitArguments args with
    | piece :: field :: _ =>
      return .doc [("$add", .list
        [.doc [(operator,
          .list [reference (unquote field), .text (String.ofList (stripQuotes piece))])], .int 1])]
    | _ => return verbatim operator args
  | _ => return verbatim operator args

def numberOrField (arg : List Char) : Value :=
  let s := unquote arg
  if s.contains '.' then
    match Number.readDouble s with
    | .ok x => .float x
    | .error _ => reference s
  else
    match Number.readInt s with
    | .ok n => .int n
    | .error _ => reference s

/-- Whether a text has nothing but digits, points and hyphens, and at least one digit. -/
def looksNumeric (s : List Char) : Bool :=
  allDigits (s.filter fun c => c != '.' && c != '-')

def mathExpression (category : Option Category) (operator : String) (args : List Char) :
    Except Fault Value := do
  match category with
  | some .mathBasic | some .mathRound | some .mathAdvanced | some .mathTrig | some .mathLog =>
    match splitArguments args with
    | [arg] =>
      let s := unquote arg
      if looksNumeric s then
        return .doc [(operator, .float (← (Number.readDouble s).mapError .number))]
      else return .doc [(operator, reference s)]
    | [first, second] =>
      return .doc [(operator, .list [numberOrField first, numberOrField second])]
    | _ => return verbatim operator args
  | some .mathRandom => return .doc [(operator, .doc [])]
  | _ => return verbatim operator args

def expressionOf (family : Family) (name : String) (category : Option Category) (operator : String)
    (args : List Char) : Except Fault Value :=
  match family with
  | .date => .ok (dateExpression category operator args)
  | .string => stringExpression name category operator args
  | .math => mathExpression category operator args

end Call

structure Call where
  family : Family
  function : Builtin
  spelled : List Char
  args : List Char
  deriving DecidableEq, Repr

namespace Call

def expression (c : Call) : Except Fault Value :=
  expressionOf c.family c.function.name (some c.function.category) c.function.operator c.args

def toDocument (c : Call) : Except Fault Document := do
  let expression ← c.expression
  return [("original", .text (String.ofList c.spelled)),
    ("function_name", .text (lowerString c.function.name)),
    ("function_type", .text c.family.name),
    ("args", .text (String.ofList c.args)),
    ("mongo_expression", expression),
    ("category", .text c.function.category.name)]

def callPattern (name : String) : Pattern :=
  edge ++ lit name ++ gap ++ exactly "(" ++ keep "args" (few inLine) ++ exactly ")"

def findOne (family : Family) (f : Builtin) (s : List Char) : List Call :=
  ((callPattern f.name).findAll s).map fun m => ⟨family, f, m.text, strip (m.get "args")⟩

def findFamily (family : Family) (s : List Char) : List Call :=
  (Builtin.ofFamily family).flatMap fun f => findOne family f s

/-- The calls in a text: those of dates, of strings, of numbers. -/
def find (s : List Char) : List Call :=
  findFamily .date s ++ findFamily .string s ++ findFamily .math s

def describe (s : List Char) : Except Fault (List Document) :=
  (find s).mapM toDocument

def occurs (s : List Char) : Bool :=
  let capitals := upper s
  Builtin.all.any fun f => (edge ++ exactly f.name ++ gap ++ exactly "(").occursIn capitals

/-- The expression of a field in which functions may be called; the first call counts. -/
def fieldExpression (s : List Char) : Except Fault Value := do
  if !occurs s then return .text (String.ofList (unquote s))
  match ← describe s with
  | call :: _ => return call.get "mongo_expression"
  | [] => return .text (String.ofList s)

def catalog : Document :=
  let group (name : String) (functions : List String) : String × Value := (name, .texts functions)
  [("date_functions", .doc
    [group "current_date" ["NOW", "CURRENT_DATE", "CURRENT_TIMESTAMP"],
      group "date_extract"
        ["YEAR", "MONTH", "DAY", "HOUR", "MINUTE", "SECOND", "DAYOFWEEK", "WEEK"],
      group "date_format" ["DATE"],
      group "date_arithmetic" ["DATEADD", "DATEDIFF"]]),
    ("string_functions", .doc
      [group "string_transform" ["UPPER", "LOWER"],
        group "string_info" ["LENGTH", "LEN"],
        group "string_combine" ["CONCAT"],
        group "string_extract" ["SUBSTRING", "SUBSTR", "LEFT", "RIGHT"],
        group "string_clean" ["TRIM", "LTRIM", "RTRIM"],
        group "string_modify" ["REPLACE"],
        group "string_search" ["CHARINDEX", "LOCATE"]]),
    ("math_functions", .doc
      [group "math_basic" ["ABS", "MOD", "SIGN"],
        group "math_round" ["ROUND", "CEIL", "CEILING", "FLOOR"],
        group "math_advanced" ["SQRT", "POWER", "POW"],
        group "math_trig" ["SIN", "COS", "TAN"],
        group "math_log" ["LOG", "LOG10", "EXP"],
        group "math_random" ["RAND", "RANDOM"]])]

end Call

end SqlGateway.Sql
