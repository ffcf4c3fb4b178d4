import SqlGateway.Sql.Node.Outline

/-!
# The kind of a statement

The kind of a text is the kind of its first statement: the keyword with which it begins, blanks and
comments left aside.  Behind `WITH` the keyword that follows the table expressions counts.
-/

namespace SqlGateway.Sql

open Text

/-- The keyword that follows a name or a list of names, among nodes that are no blanks.  A node that
was looked at as a follower is not looked at as a name. -/
def kindBehind : List Node → Option String
  | [] => none
  | [_] => none
  | n :: next :: rest =>
    if n.isGroupOf [.named, .items] then
      match next with
      | .token t => if t.kind == .dataKeyword then some t.canonical else kindBehind rest
      | .group _ _ => kindBehind rest
    else kindBehind (next :: rest)

def kindOf (ns : List Node) : String :=
  match (ns.filter fun n => !n.isSpace).dropWhile Node.isComment with
  | .token t :: rest =>
    if t.kind == .dataKeyword || t.kind == .schemaKeyword then t.canonical
    else if t.kind == .withKeyword then (kindBehind rest).getD "UNKNOWN"
    else "UNKNOWN"
  | _ => "UNKNOWN"

/-- The kind of the first statement of a text, or nothing if the text is blank. -/
def statementKind? (s : List Char) : Option String :=
  if s.all isBlank then none else some (kindOf (Node.ofText s))

end SqlGateway.Sql
