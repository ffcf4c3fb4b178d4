import SqlGateway.Text.Basic

/-!
# Tokens

A token is a piece of a statement with its kind.  Keywords are compared in capitals and with single
spaces between their words, all other tokens as they are written.
-/

namespace SqlGateway.Sql

open Text

namespace Token

inductive Kind where
  /-- A blank other than a line end. -/
  | blank
  | newline
  | lineComment
  | blockComment
  /-- A word, or a name in backquotes, acute accents or brackets. -/
  | name
  | typeName
  /-- A place for a value that is given later. -/
  | placeholder
  /-- A text in double quotes. -/
  | symbol
  /-- A text in single quotes. -/
  | string
  /-- A text between two equal dollar tags. -/
  | tagged
  | number
  | hexNumber
  | keyword
  | orderKeyword
  | dataKeyword
  | schemaKeyword
  | rightsKeyword
  /-- The keyword before common table expressions. -/
  | withKeyword
  | zoneKeyword
  | punctuation
  | comparison
  | operator
  | wildcard
  | assignment
  | other
  deriving DecidableEq, Repr

namespace Kind

def isKeyword (k : Kind) : Bool :=
  [keyword, orderKeyword, dataKeyword, schemaKeyword, rightsKeyword, withKeyword,
    zoneKeyword].contains k

def isComment (k : Kind) : Bool :=
  k == lineComment || k == blockComment

def isNaming (k : Kind) : Bool :=
  k == name || k == typeName || k == placeholder

def isNumeric (k : Kind) : Bool :=
  k == number || k == hexNumber

/-- Whether tokens of a kind are single values: a number, a text or a name. -/
def isValue (k : Kind) : Bool :=
  [number, string, symbol, name, placeholder].contains k

end Kind

end Token

structure Token where
  kind : Token.Kind
  text : List Char
  deriving DecidableEq, Repr

namespace Token

/-- A keyword in capitals and with single spaces; any other token as it is written. -/
def canonical (t : Token) : String :=
  if t.kind.isKeyword then String.intercalate " " ((words (upper t.text)).map String.ofList)
  else String.ofList t.text

def isOneOf (t : Token) (kind : Kind) (texts : List String) : Bool :=
  t.kind == kind && texts.contains t.canonical

def isReserved (t : Token) (word : String) : Bool :=
  t.isOneOf .keyword [word]

def isSign (t : Token) (sign : String) : Bool :=
  t.isOneOf .punctuation [sign]

def isSpace (t : Token) : Bool :=
  t.kind == .blank || t.kind == .newline

end Token

end SqlGateway.Sql
