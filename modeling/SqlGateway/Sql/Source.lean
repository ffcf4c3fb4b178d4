import SqlGateway.Sql.Literal
import SqlGateway.Sql.StatementKind

/-!
# Sources of rows

What stands behind `FROM`.  A group that is known by a name is a source of that name; any other node
is a source by its text.  The name of a group is the first name in it or, if it has a dot, the first
name from the dot on.
-/

namespace SqlGateway.Sql

open Text

def withoutQuotes (s : List Char) : List Char :=
  if enclosedBy '`' s || isEnclosed s then inner s else s

namespace Node

/-- What a node adds to the name of the group it stands in. -/
inductive Mark where
  | dot
  /-- A name; a call or a named group without a name of its own counts as a name too. -/
  | name (own : Option (List Char))
  | nothing

def Mark.name? (marks : List Mark) : Option (List Char) :=
  let fromDot := marks.dropWhile fun
    | .dot => false
    | _ => true
  let own? := (if fromDot.isEmpty then marks else fromDot).findSome? fun
    | .name own => some own
    | _ => none
  own?.join

mutual

def mark : Node → Mark
  | token t =>
    if t.isSign "." then .dot
    else if t.kind == .name || t.kind == .symbol || t.kind == .wildcard then
      .name (some (withoutQuotes t.text))
    else .nothing
  | group kind inside =>
    if kind == .named || kind == .call then .name (Mark.name? (marks inside)) else .nothing

def marks : List Node → List Mark
  | [] => []
  | n :: rest => n.mark :: marks rest

end

/-- The name by which a node is known as a source: the name of a group, or else its text without the
quotes at its ends. -/
def sourceName? : Node → Option (List Char)
  | group .named inside => Mark.name? (marks inside)
  | n => some (bareName n.text)

/-- The name of the source behind the first `FROM` that something follows. -/
def sourceBehindFrom? : List Node → Option (List Char)
  | [] => none
  | n :: rest =>
    if n.isWord "FROM" then
      match rest.dropWhile fun n => n.isTokenOf (· == .blank) with
      | source :: _ => source.sourceName?
      | [] => sourceBehindFrom? rest
    else sourceBehindFrom? rest

end Node

end SqlGateway.Sql
