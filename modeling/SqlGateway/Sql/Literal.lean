import SqlGateway.Number.Read
import SqlGateway.Value.Basic

/-!
# Literals

A literal of a statement stands for a value: a text in quotes, `NULL`, a truth value or a number.
What is none of these stands for itself as a text.
-/

namespace SqlGateway.Sql

open Text

def isQuote (c : Char) : Bool :=
  c == '\'' || c == '"'

def isNameQuote (c : Char) : Bool :=
  c == '`' || c == '[' || c == ']' || isQuote c

/-- A name without the quotes and brackets around it. -/
def bareName (s : List Char) : List Char :=
  stripBy isNameQuote s

def enclosedBy (q : Char) (s : List Char) : Bool :=
  s.head? == some q && s.getLast? == some q

def isEnclosed (s : List Char) : Bool :=
  enclosedBy '\'' s || enclosedBy '"' s

/-- A text without its first and last character. -/
def inner (s : List Char) : List Char :=
  (s.drop 1).dropLast

/-- A text without the quotes that enclose it. -/
def unquote (s : List Char) : List Char :=
  let s := strip s
  if isEnclosed s then inner s else s

def isKeyword (word : String) (s : List Char) : Bool :=
  upper s == word.toList

def numberOrText (s : List Char) : Value :=
  let asInt : Value :=
    match Number.readInt s with
    | .ok n => .int n
    | .error _ => .text (String.ofList s)
  if s.contains '.' then
    match Number.readDouble s with
    | .ok x => .float x
    | .error _ => asInt
  else asInt

def literal (s : List Char) : Value :=
  let s := strip s
  if isEnclosed s then .text (String.ofList (inner s))
  else if isKeyword "NULL" s then .null
  else if isKeyword "TRUE" s then .bool true
  else if isKeyword "FALSE" s then .bool false
  else numberOrText s

/-- Whether a text opens with the quote `q` and has another one. -/
def opensQuoted (q : Char) (s : List Char) : Bool :=
  s.head? == some q && decide (2 ≤ s.count q)

/-- Trims a literal and removes a semicolon behind it, unless the literal is quoted. -/
def trimLiteral (s : List Char) : List Char :=
  let t := strip s
  if endsWith [';'] t && !(opensQuoted '\'' t || opensQuoted '"' t) then strip t.dropLast else t

end SqlGateway.Sql
