import SqlGateway.Http.Request

/-!
# Responses

A response has a status and a body.  Points in time are written as date lines; identities and bytes
cannot be written at all, and of several such values the one that comes first in the order of names
is named in the fault.  Tokens stand beside the body, under the names that they have in it.
-/

namespace SqlGateway

namespace Value

mutual
/-- The kind of the first value that cannot be written. -/
def unwritable? : Value → Option String
  | .id key => some (Value.id key).kind
  | .bytes data => some (Value.bytes data).kind
  | .list items => unwritableItem? items
  | .doc members => (unwritableMember? members).map Prod.snd
  | _ => none

def unwritableItem? : List Value → Option String
  | [] => none
  | v :: vs =>
    match unwritable? v with
    | some kind => some kind
    | none => unwritableItem? vs

/-- The least name of a member that cannot be written, with the kind of the value. -/
def unwritableMember? : List (String × Value) → Option (String × String)
  | [] => none
  | (name, v) :: rest =>
    match unwritable? v, unwritableMember? rest with
    | some kind, some (other, otherKind) =>
      if name < other then some (name, kind) else some (other, otherKind)
    | some kind, none => some (name, kind)
    | none, found => found
end

mutual
def written : Value → Value
  | .time t => .text t.dateLine
  | .list items => .list (writtenItems items)
  | .doc members => .doc (writtenMembers members)
  | v => v

def writtenItems : List Value → List Value
  | [] => []
  | v :: vs => written v :: writtenItems vs

def writtenMembers : List (String × Value) → List (String × Value)
  | [] => []
  | (name, v) :: rest => (name, written v) :: writtenMembers rest
end

def write (v : Value) : Except Fault Value :=
  match v.unwritable? with
  | some kind => .error (.misused (.notWritable kind))
  | none => .ok v.written

end Value

namespace Http

/-- A token that is handed out, and how many seconds it is good for. -/
structure Token where
  claims : Claims
  lifetime : Nat
  deriving DecidableEq, Repr

structure Response where
  status : Nat
  body : Value
  tokens : List (String × Token)
  deriving DecidableEq, Repr

namespace Response

def json (status : Nat) (body : Value) : Except Fault Response := do
  return ⟨status, ← body.write, []⟩

def error (status : Nat) (text : String) : Response :=
  ⟨status, .doc [("error", .text text)], []⟩

def message (status : Nat) (text : String) : Response :=
  ⟨status, .doc [("message", .text text)], []⟩

def verdict (status : Nat) (success : Bool) (text : String) : Response :=
  ⟨status, .doc [("success", .bool success), ("message", .text text)], []⟩

def empty (status : Nat) : Response :=
  ⟨status, .null, []⟩

end Response

end Http

end SqlGateway
