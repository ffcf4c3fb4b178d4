import SqlGateway.Sql.Token.Basic

/-!
# Nodes

A statement is read as a list of nodes: tokens, and groups of nodes that belong together, such as a
parenthesis or a name with its byname.  Grouping moves no token: the tokens of the nodes, from left
to right, stay the tokens of the statement.
-/

namespace SqlGateway.Sql

open Text

namespace Node

inductive Kind where
  | comment
  | brackets
  | parens
  /-- From `CASE` to `END`. -/
  | choice
  /-- From `IF` to `END IF`. -/
  | conditional
  /-- From `FOR` to `END LOOP`. -/
  | loop
  /-- From `BEGIN` to `END`. -/
  | block
  | window
  | call
  | condition
  /-- Something that is known by a name. -/
  | named
  | typed
  | operation
  | comparison
  | assignment
  | items
  | values
  deriving DecidableEq, Repr

end Node

/-- A part of a statement: a token or a group of nodes. -/
inductive Node where
  | token (t : Token)
  | group (kind : Node.Kind) (inside : List Node)

namespace Node

mutual

def tokens : Node → List Token
  | token t => [t]
  | group _ inside => tokensOf inside

def tokensOf : List Node → List Token
  | [] => []
  | n :: rest => n.tokens ++ tokensOf rest

end

def text (n : Node) : List Char :=
  n.tokens.flatMap Token.text

def isToken (p : Token → Bool) : Node → Bool
  | token t => p t
  | group _ _ => false

def isTokenOf (p : Token.Kind → Bool) (n : Node) : Bool :=
  n.isToken fun t => p t.kind

def isGroupOf (kinds : List Kind) : Node → Bool
  | token _ => false
  | group kind _ => kinds.contains kind

def isSpace (n : Node) : Bool :=
  n.isToken Token.isSpace

def isWord (n : Node) (word : String) : Bool :=
  n.isToken (·.isReserved word)

def isSign (n : Node) (sign : String) : Bool :=
  n.isToken (·.isSign sign)

def isKeyword (n : Node) : Bool :=
  n.isTokenOf Token.Kind.isKeyword

def isNull (n : Node) : Bool :=
  n.isWord "NULL"

def isComment (n : Node) : Bool :=
  n.isTokenOf Token.Kind.isComment || n.isGroupOf [.comment]

mutual

/-- Applies `f` to the inside of every group of a node, the inner groups first.  Groups whose kind
`enters` refuses stay as they are. -/
def rebuild (enters : Kind → Bool) (f : Option Kind → List Node → List Node) : Node → Node
  | token t => token t
  | group kind inside =>
    if enters kind then group kind (f (some kind) (rebuildAll enters f inside))
    else group kind inside

def rebuildAll (enters : Kind → Bool) (f : Option Kind → List Node → List Node) :
    List Node → List Node
  | [] => []
  | n :: rest => n.rebuild enters f :: rebuildAll enters f rest

end

/-- Applies `f` inside every group that is not of the kind `kind`, and then to the nodes
themselves. -/
def everywhereBut (kind : Kind) (f : List Node → List Node) (ns : List Node) : List Node :=
  f (rebuildAll (· != kind) (fun _ => f) ns)

end Node

end SqlGateway.Sql
