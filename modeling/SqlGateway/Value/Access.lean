import SqlGateway.Fault
import SqlGateway.Value.Show

/-!
# Reaching into values

Readers hand over values whose kinds they promise; a value from elsewhere may be of another kind.
Each way to reach into a value says which fault arises then.
-/

namespace SqlGateway

namespace Value

/-- The member of a document, or null if it is missing. -/
def member (v : Value) (name : String) : Except Fault Value :=
  match v with
  | .doc d => .ok (Document.get d name)
  | _ => .error (.lacks v.kind "get")

def memberOr (v : Value) (name : String) (default : Value) : Except Fault Value :=
  match v with
  | .doc d => .ok ((Document.get? d name).getD default)
  | _ => .error (.lacks v.kind "get")

/-- The member of a document, which has to be there. -/
def need (v : Value) (name : String) : Except Fault Value :=
  match v with
  | .doc d =>
    match Document.get? d name with
    | some w => .ok w
    | none => .error (.missing name)
  | .list _ => .error (.misused .listIndex)
  | .text _ => .error (.misused .textIndex)
  | _ => .error (.misused (.notSubscriptable v.kind))

/-- Whether `name` occurs in a value: as the name of a member, an item or a piece of text. -/
def mentions (v : Value) (name : String) : Except Fault Bool :=
  match v with
  | .doc d => .ok (Document.has d name)
  | .list items => .ok (items.contains (.text name))
  | .text s => .ok (Text.hasPiece name.toList s.toList)
  | _ => .error (.misused (.notSearchable v.kind))

/-- The items of a list, the names of the members of a document, or the characters of a text. -/
def items (v : Value) : Except Fault (List Value) :=
  match v with
  | .list vs => .ok vs
  | .doc d => .ok (d.map fun member => .text member.1)
  | .text s => .ok (s.toList.map fun c => .text (String.ofList [c]))
  | _ => .error (.misused (.notIterable v.kind))

def length (v : Value) : Except Fault Nat :=
  match v with
  | .list vs => .ok vs.length
  | .doc d => .ok d.length
  | .text s => .ok s.length
  | .bytes data => .ok data.length
  | _ => .error (.misused (.noLength v.kind))

/-- The members of a document, for an operation that only documents offer. -/
def members (v : Value) (operation : String) : Except Fault Document :=
  match v with
  | .doc d => .ok d
  | _ => .error (.lacks v.kind operation)

def asText (v : Value) (operation : String) : Except Fault String :=
  match v with
  | .text s => .ok s
  | _ => .error (.lacks v.kind operation)

/-- A value as the name of a member.  Documents name their members by texts; other scalars are
written out. -/
def asName (v : Value) : Except Fault String :=
  match v with
  | .text s => .ok s
  | .list _ | .doc _ => .error (.misused (.notHashable v.kind))
  | .null => .ok "null"
  | .bool b => .ok (if b then "true" else "false")
  | _ => .ok v.plain

end Value

end SqlGateway
