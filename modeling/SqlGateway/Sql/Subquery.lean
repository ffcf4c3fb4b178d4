import SqlGateway.Text.Pattern
import SqlGateway.Value.Access

/-!
# Subqueries

A subquery is a `SELECT` in parentheses.  Its context is the last of a few keywords before it.
-/

namespace SqlGateway.Sql

open Text Pattern

structure Subquery where
  index : Nat
  text : String
  context : String
  start : Nat
  stop : Nat
  deriving DecidableEq, Repr

namespace Subquery

/-- A `SELECT` in parentheses, up to the first closing parenthesis. -/
def subqueryPattern : Pattern :=
  exactly "(" ++ gap ++ lit "SELECT" ++ space ++ few anyChar ++ exactly ")"

def occurs (statement : List Char) : Bool :=
  subqueryPattern.occursIn statement

/-- How many characters stand before the last occurrence of a piece. -/
def lastPlace? (piece : List Char) : List Char → Option Nat
  | [] => if piece.isEmpty then some 0 else none
  | c :: rest =>
    ((lastPlace? piece rest).map (· + 1)) <|>
      if piece.isPrefixOf (c :: rest) then some 0 else none

def contextWords : List String :=
  ["WHERE", "FROM", "SELECT", "IN", "EXISTS", "ANY", "ALL"]

/-- The context behind a text: the keyword that occurs last in it. -/
def contextBehind (before : List Char) : String :=
  let capitals := upper before
  let place (word : String) : Option Nat := lastPlace? word.toList capitals
  let isLast (word : String) : Bool :=
    match place word with
    | none => false
    | some n => contextWords.all fun other => (place other).all fun k => decide (k ≤ n)
  match contextWords.find? isLast with
  | some word => lowerString word
  | none => "unknown"

/-- The text before a place; a negative place counts from the end. -/
def before (statement : List Char) (place : Int) : List Char :=
  let count := if place < 0 then place + statement.length else place
  statement.take count.toNat

def contextAt (statement : List Char) (place : Int) : String :=
  contextBehind (before statement place)

def withoutParens (s : List Char) : List Char :=
  stripBy (fun c => c == '(' || c == ')') s

def read (statement : List Char) : List Subquery :=
  (subqueryPattern.findAll statement).zipIdx.map fun (m, index) =>
    { index
      text := String.ofList (strip (withoutParens m.text))
      context := contextAt statement m.start
      start := m.start
      stop := m.stop }

def toDocument (q : Subquery) : Document :=
  [("index", .ofNat q.index), ("subquery", .text q.text), ("context", .text q.context),
    ("start_pos", .ofNat q.start), ("end_pos", .ofNat q.stop)]

def describeAll (statement : List Char) : List Value :=
  (read statement).map fun q => .doc q.toDocument

def advice (subquery : Value) : Except Fault Document := do
  let context ← subquery.memberOr "context" (.text "unknown")
  let text ← subquery.memberOr "subquery" (.text "")
  let (strategy, operation) :=
    match context with
    | .text "where" => ("lookup_or_in", "$lookup or separate query with $in")
    | .text "from" => ("aggregate_pipeline", "nested aggregation pipeline")
    | .text "select" => ("lookup_or_map", "$lookup with projection or $map")
    | _ => ("complex", "requires manual translation")
  return [("strategy", .text strategy), ("context", context), ("subquery", text),
    ("mongo_operation", .text operation)]

end Subquery

end SqlGateway.Sql
