import SqlGateway.Sql.Token.Scan

/-!
# Where a statement ends

A statement ends at a semicolon outside parentheses and blocks, or at the word `GO`.  The blanks and
line comments that follow on the same line still belong to it.
-/

namespace SqlGateway.Sql

namespace Token

/-- What has been opened and not closed so far. -/
structure Nesting where
  /-- How many parentheses and blocks are open; below zero if more were closed than opened. -/
  level : Int
  creates : Bool
  blocks : Nat

def Nesting.start : Nesting :=
  ⟨0, false, 0⟩

/-- What is open behind a keyword.  Only in a statement that creates something do blocks hold
semicolons. -/
def Nesting.behindWord (n : Nesting) (t : Token) : Nesting :=
  let word := String.ofList (Text.upper t.text)
  let deeper := { n with level := n.level + 1 }
  if t.kind == .schemaKeyword && word.startsWith "CREATE" then { n with creates := true }
  else if word == "DECLARE" && n.creates && n.blocks == 0 then deeper
  else if word == "BEGIN" then
    { n with blocks := n.blocks + 1, level := if n.creates then n.level + 1 else n.level }
  else if word == "END" then { n with blocks := n.blocks - 1, level := n.level - 1 }
  else if ["IF", "FOR", "WHILE", "CASE"].contains word && n.creates && n.blocks != 0 then deeper
  else if ["END IF", "END FOR", "END WHILE"].contains word then { n with level := n.level - 1 }
  else n

def Nesting.behind (n : Nesting) (t : Token) : Nesting :=
  if t.isSign "(" then { n with level := n.level + 1 }
  else if t.isSign ")" then { n with level := n.level - 1 }
  else if t.kind.isKeyword then n.behindWord t
  else n

def endsStatement (n : Nesting) (t : Token) : Bool :=
  (t.isSign ";" && decide (n.level ≤ 0)) ||
    (t.kind == .keyword && (Text.words t.text).head? == some ['G', 'O'])

/-- Whether a token behind the end of a statement still belongs to it. -/
def trails (t : Token) : Bool :=
  t.kind == .blank || t.kind == .lineComment

def firstStatementFrom (n : Nesting) : List Token → List Token
  | [] => []
  | t :: rest =>
    let n := n.behind t
    if endsStatement n t then t :: rest.takeWhile trails else t :: firstStatementFrom n rest

def firstStatement (ts : List Token) : List Token :=
  firstStatementFrom .start ts

end Token

end SqlGateway.Sql
