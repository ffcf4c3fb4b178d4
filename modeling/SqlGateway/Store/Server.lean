import SqlGateway.Fault
import SqlGateway.Store.Call

/-!
# Servers

A server answers calls.  It is a function of the calls made before and of the call itself, so every
way a store can behave over time is a server.  `Access` is the kind of program that makes calls: it
may fail, and the calls made so far are kept when it does.
-/

namespace SqlGateway.Store

inductive Reply where
  | value (v : Value)
  | fault (f : Fault)
  deriving DecidableEq, Repr

/-- A server, by its reply to a call after other calls, the oldest of which comes first.  Where it
has no reply of its own the call has its usual outcome. -/
abbrev Server := List Call → Call → Option Reply

def Server.scripted (queues : List (CallKind × List Reply)) : Server := fun before call => do
  let replies ← queues.lookup call.kind
  replies[before.countP fun earlier => earlier.kind == call.kind]?

structure Session where
  server : Server
  /-- The calls so far, the oldest first. -/
  calls : List Call
  /-- How many identities have been given to new documents. -/
  issued : Nat

def Session.start (server : Server) : Session :=
  ⟨server, [], 0⟩

abbrev Access := ExceptT Fault (StateM Session)

def identity (n : Nat) : ObjectId :=
  ⟨String.ofList (Text.hexDigits 24 n)⟩

namespace Access

/-- Makes a call and gives the value of the reply, if there is one. -/
def ask? (call : Call) : Access (Option Value) := do
  let session ← get
  set { session with calls := session.calls ++ [call] }
  match session.server session.calls call with
  | some (.value v) => return some v
  | some (.fault f) => throw f
  | none => return none

/-- Makes a call whose usual outcome is `default`. -/
def ask (call : Call) (default : Value) : Access Value := do
  return (← ask? call).getD default

/-- Makes a call whose outcome does not matter unless it is a fault. -/
def tell (call : Call) : Access Unit := do
  let _ ← ask? call

/-- The calls made so far. -/
def calls : Access (List Call) :=
  return (← get).calls

def issue : Access ObjectId := do
  let session ← get
  set { session with issued := session.issued + 1 }
  return identity (session.issued + 1)

end Access

end SqlGateway.Store
