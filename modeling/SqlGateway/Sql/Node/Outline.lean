import SqlGateway.Sql.Node.Gather
import SqlGateway.Sql.Token.Extent

/-!
# The outline of a statement

The nodes of a statement come from its tokens by grouping step after step: first comments and all that
is enclosed, then names and what belongs to them, then operations, names that are given with `AS` or
without, and last lists.  A step sees the groups of the steps before it.
-/

namespace SqlGateway.Sql.Node

/-! ### Enclosed parts -/

/-- Groups comments with the comments and blanks behind them, unless the list ends there. -/
def comments (ns : List Node) : List Node :=
  gather (fun n rest =>
    let count := (rest.takeWhile fun m => m.isTokenOf Token.Kind.isComment || m.isSpace).length
    if n.isTokenOf Token.Kind.isComment && decide (count < rest.length) then
      some (withNext .comment false n rest count)
    else none) ns

def encloseWords (kind : Kind) (opens : List String) (closes : String) (ns : List Node) :
    List Node :=
  enclose kind (fun n => opens.any n.isWord) (·.isWord closes) ns

def enclosures (ns : List Node) : List Node :=
  let ns := enclose .brackets (·.isSign "[") (·.isSign "]") ns
  let ns := enclose .parens (·.isSign "(") (·.isSign ")") ns
  let ns := encloseWords .choice ["CASE"] "END" ns
  let ns := encloseWords .conditional ["IF"] "END IF" ns
  let ns := encloseWords .loop ["FOR", "FOREACH"] "END LOOP" ns
  encloseWords .block ["BEGIN"] "END" ns

/-! ### Names -/

def isNaming (n : Node) : Bool :=
  n.isTokenOf Token.Kind.isNaming

/-- Whether a node is a plain name or a text in double quotes. -/
def isPlainName (n : Node) : Bool :=
  n.isTokenOf fun k => k == .name || k == .symbol

def windows (ns : List Node) : List Node :=
  everywhereBut .window (gather fun n rest =>
    if n.isWord "OVER" && (firstSolid? rest).any fun m => m.isGroupOf [.parens] || m.isNaming then
      some (withNext .window false n rest (countToSolid rest))
    else none) ns

def isTableDefinition (ns : List Node) : Bool :=
  let has (word : String) := ns.any fun n => Text.upper n.text == word.toList
  has "CREATE" && has "TABLE" && !ns.any fun n => n.text == ['A', 'S']

def call? (n : Node) (rest : List Node) : Option (Node × Nat) :=
  if n.isNaming && (firstSolid? rest).any (·.isGroupOf [.parens]) then
    let count := countToSolid rest
    let more := rest.drop count
    let window := if (firstSolid? more).any (·.isGroupOf [.window]) then countToSolid more else 0
    some (withNext .call false n rest (count + window))
  else none

/-- Groups names with the parentheses behind them, except among the columns of a new table. -/
def calls (ns : List Node) : List Node :=
  everywhereBut .call (fun ns => if isTableDefinition ns then ns else gather call? ns) ns

def conditionEnds : List String :=
  ["ORDER BY", "GROUP BY", "LIMIT", "UNION", "UNION ALL", "EXCEPT", "HAVING", "RETURNING", "INTO"]

/-- The group of a condition, which ends before certain keywords, or else with its list; `closed` says
that the last node of the list is a closing sign. -/
def condition? (closed : Bool) (n : Node) (rest : List Node) : Option (Node × Nat) :=
  if n.isWord "WHERE" then
    let length := (rest.takeWhile fun m => !conditionEnds.any m.isWord).length
    let count := if closed && length == rest.length then length - 1 else length
    some (withNext .condition false n rest count)
  else none

def conditions (ns : List Node) : List Node :=
  let inList (owner : Option Kind) :=
    gather (condition? (owner == some .parens || owner == some .brackets))
  inList none (rebuildAll (· != .condition) inList ns)

/-- Whether a dot or an arrow stands between two names. -/
def isLink (n : Node) : Bool :=
  n.isSign "." || n.isToken (·.isOneOf .operator ["->", "->>"])

def isLinked (n : Node) : Bool :=
  n.isGroupOf [.brackets, .call] ||
    n.isTokenOf fun k => k == .name || k == .symbol || k == .wildcard || k == .string

/-- Names with dots: the dot belongs to the name before it, also if no name follows. -/
def dotted : Joint where
  kind := .named
  isMiddle := isLink
  before n := n.isGroupOf [.brackets, .named] || n.isPlainName
  behind _ := true
  takesBefore := true
  reach rest := if (firstSolid? rest).any isLinked then countToSolid rest else 0
  grows := true

def indexed : Joint where
  kind := .named
  isMiddle n := n.isGroupOf [.brackets]
  before n := n.isGroupOf [.brackets, .named, .call] || n.isPlainName
  behind _ := true
  takesBefore := true
  reach _ := 0
  grows := true

def singleNames (ns : List Node) : List Node :=
  everywhereBut .named (gather fun n rest =>
    if n.isPlainName then some (withNext .named false n rest 0) else none) ns

def directed (ns : List Node) : List Node :=
  everywhereBut .named (attach (·.isTokenOf (· == .orderKeyword)) fun last more =>
    if last.isGroupOf [.named] || last.isTokenOf Token.Kind.isNumeric then
      some (bundle .named false (last :: more))
    else none) ns

/-! ### Values -/

def cast : Joint where
  kind := .named
  isMiddle n := n.isSign "::"
  before _ := true
  behind next? := next?.isSome
  takesBefore := true
  reach := countToSolid
  grows := true

def zoned : Joint where
  kind := .named
  isMiddle n := n.isTokenOf (· == .zoneKeyword)
  before _ := true
  behind next? := next?.any fun n => n.isWord "AS" || n.isTokenOf (· == .string)
  takesBefore := true
  reach := countToSolid
  grows := true

def typedText : Joint where
  kind := .typed
  isMiddle n := n.isTokenOf (· == .typeName) || n.isWord "TIMESTAMP"
  before _ := true
  behind next? := next?.any (·.isTokenOf (· == .string))
  takesBefore := false
  reach := countToSolid
  grows := false

def typedUnit : Joint where
  kind := .typed
  isMiddle n := n.isGroupOf [.typed]
  before _ := true
  behind next? := next?.any fun n =>
    ["DAY", "HOUR", "MINUTE", "MONTH", "SECOND", "YEAR"].any n.isWord
  takesBefore := false
  reach := countToSolid
  grows := true

/-- Whether a node is a single value or a group that stands for one. -/
def isOperand (n : Node) : Bool :=
  n.isGroupOf [.parens, .call, .named, .operation, .typed] || n.isTokenOf Token.Kind.isValue

def isTerm (n : Node) : Bool :=
  n.isOperand || n.isGroupOf [.brackets] ||
    ["CURRENT_DATE", "CURRENT_TIME", "CURRENT_TIMESTAMP"].any n.isWord

def operations : Joint where
  kind := .operation
  isMiddle n := n.isTokenOf fun k => k == .operator || k == .wildcard
  before := isTerm
  behind next? := next?.any isTerm
  takesBefore := true
  reach := countToSolid
  grows := false

def comparisons : Joint where
  kind := .comparison
  isMiddle n := n.isTokenOf (· == .comparison)
  before n := n.isOperand || n.isNull
  behind next? := next?.any fun n => n.isOperand || n.isNull
  takesBefore := true
  reach := countToSolid
  grows := false

/-- Names that are given with `AS`, to anything but a keyword.  No statement can follow `AS`. -/
def renamed : Joint where
  kind := .named
  isMiddle n := n.isWord "AS"
  before n := n.isNull || !n.isKeyword
  behind next? := next?.any fun n =>
    !n.isTokenOf fun k => k == .dataKeyword || k == .schemaKeyword || k == .withKeyword
  takesBefore := true
  reach := countToSolid
  grows := true

def bynames (ns : List Node) : List Node :=
  let inList := gather fun n rest =>
    if (n.isGroupOf [.parens, .call, .choice, .named, .operation, .comparison] ||
        n.isTokenOf Token.Kind.isNumeric) && (firstSolid? rest).any (·.isGroupOf [.named]) then
      some (withNext .named true n rest (countToSolid rest))
    else none
  inList (rebuildAll (fun _ => true) (fun _ => inList) ns)

/-- Assignments, up to the next semicolon if there is one. -/
def assignments : Joint where
  kind := .assignment
  isMiddle n := n.isTokenOf (· == .assignment)
  before n := !n.isTokenOf (· == .keyword)
  behind next? := next?.any fun n => !n.isTokenOf (· == .keyword)
  takesBefore := true
  reach rest :=
    let value := countToSolid rest
    let more := rest.drop value
    match more.findIdx? (·.isSign ";") with
    | some count => value + count + 1
    | none => value
  grows := true

/-! ### Lists -/

def extended? (more : List Node) : Node → Option Node
  | group kind inside => some (group kind (inside ++ more))
  | token _ => none

def alignComments (ns : List Node) : List Node :=
  let inList := attach (·.isGroupOf [.comment]) fun last more => extended? more last
  inList (rebuildAll (fun _ => true) (fun _ => inList) ns)

def isItem (n : Node) : Bool :=
  n.isGroupOf [.call, .choice, .named, .comparison, .items, .operation] ||
    n.isTokenOf fun k => k.isValue || k == .keyword || k == .wildcard

def itemLists : Joint where
  kind := .items
  isMiddle n := n.isSign ","
  before := isItem
  behind next? := next?.any isItem
  takesBefore := true
  reach := countToSolid
  grows := true

/-- Groups `VALUES` with all that follows up to the last parenthesis. -/
def valueRows (ns : List Node) : List Node :=
  let (start, rest) := ns.span fun n => !n.isWord "VALUES"
  let tail := (rest.reverse.takeWhile fun n => !n.isGroupOf [.parens]).reverse
  let rows := rest.take (rest.length - tail.length)
  if rows.isEmpty then ns else start ++ group .values rows :: tail

/-! ### The outline -/

def outline (ts : List Token) : List Node :=
  let ns := enclosures (comments (ts.map token))
  let ns := conditions (calls (windows ns))
  let ns := directed (singleNames (indexed.joinFlat (dotted.join ns)))
  let ns := typedUnit.join (typedText.join (zoned.join (cast.join ns)))
  let ns := renamed.join (comparisons.join (operations.join ns))
  let ns := assignments.join (bynames ns)
  valueRows (itemLists.join (alignComments ns))

/-- The nodes of the first statement of a text. -/
def ofText (s : List Char) : List Node :=
  outline (Token.firstStatement (Token.tokens s))

end SqlGateway.Sql.Node
