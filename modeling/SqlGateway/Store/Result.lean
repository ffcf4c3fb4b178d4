import SqlGateway.Value.Basic

/-!
# Results

Before a result leaves the gateway the identities in it are written as texts.  Inside a document that
happens at every depth, except in lists of lists.  In a list of results, a list that is a member of a
result stays as it is.
-/

namespace SqlGateway.Store

mutual
def textMembers : List (String × Value) → List (String × Value)
  | [] => []
  | (name, v) :: rest => (name, textMember v) :: textMembers rest

def textMember : Value → Value
  | .id key => .text key.hex
  | .doc d => .doc (textMembers d)
  | .list items => .list (textItems items)
  | v => v

def textItems : List Value → List Value
  | [] => []
  | v :: vs => textItem v :: textItems vs

/-- Writes the identities in an item as texts.  A list inside a list stays as it is. -/
def textItem : Value → Value
  | .id key => .text key.hex
  | .doc d => .doc (textMembers d)
  | v => v
end

def textResult : Value → Value
  | .doc d => .doc (d.map fun member => (member.1, textItem member.2))
  | v => v

/-- Writes the identities in a result, or in a list of results, as texts. -/
def textResults : Value → Value
  | .list results => .list (results.map textResult)
  | .doc d => .doc (textMembers d)
  | v => v

end SqlGateway.Store
