import SqlGateway.Store.Operation

/-!
# Connections

A connection remembers its address, the database in use and the databases that were seen.  The
databases that belong to the store itself are never among those.

Choosing a database takes effect unless its name is refused, even if the store then fails to list its
collections.  Reconnecting takes up the database in use again and never fails.
-/

namespace SqlGateway.Store

structure Connection where
  address : Value
  database : Option String
  /-- The name by which the database in use was chosen, or null. -/
  name : Value
  available : List Value
  /-- Refuses a name before a database is chosen by it. -/
  check : Value → Except Fault Unit

abbrev Connected := ExceptT Fault (StateT Connection (StateM Session))

/-- A program that only makes calls leaves the connection alone. -/
instance : MonadLift Access Connected where
  monadLift x := fun connection session =>
    let (outcome, session) := x.run.run session
    ((outcome, connection), session)

namespace Connected

def connection : Connected Connection :=
  ExceptT.lift StateT.get

def change (f : Connection → Connection) : Connected Unit :=
  ExceptT.lift (StateT.modifyGet fun c => ((), f c))

/-- Runs a program and gives its outcome instead of failing. -/
def outcome {α : Type} (x : Connected α) : Connected (Except Fault α) :=
  tryCatch (Except.ok <$> x) (fun fault => pure (.error fault))

def orElse {α : Type} (x y : Connected α) : Connected α :=
  tryCatch x (fun _ => y)

end Connected

open Connected (connection change)

def systemDatabases : List Value :=
  [.text "admin", .text "local", .text "config"]

def userDatabases (names : List Value) : List Value :=
  names.filter fun name => !systemDatabases.contains name

namespace Connection

/-- A connection to an address before anything is known about it, which refuses no name. -/
def fresh (address : Value) : Connection :=
  ⟨address, none, .null, [], fun _ => .ok ()⟩

def isSelected (c : Connection) : Bool :=
  c.database.isSome && c.name != .null

def selected? (c : Connection) : Option String :=
  if c.name == .null then none else c.database

end Connection

def isAlive : Connected Bool :=
  Connected.orElse (do ping; return true) (return false)

def select (name : Value) : Connected Value := do
  (← connection).check name
  change fun c => { c with database := some name.plain, name := name }
  collectionNames name.plain

def reopen : Connected Unit := do
  connect (← connection).address
  ping
  let name := (← connection).name
  if name.isPresent then let _ ← select name

def reconnect : Connected Unit :=
  Connected.orElse reopen (return ())

/-- The names of the databases in the store, without those of the store itself. -/
def listDatabases : Access (List Value) := do
  return userDatabases (← (← databaseNames).items)

/-- Looks for the databases; after a fault it reconnects and tries once more. -/
def availableDatabases : Connected (List Value) :=
  Connected.orElse
    (do
      let names ← listDatabases
      change fun c => { c with available := names }
      return names)
    (do
      reconnect
      Connected.orElse (do listDatabases) (return []))

/-- The collections of a database.  Without a name it asks whether a database is in use, which has
no answer if there is one. -/
def collectionsOf (name : Value) : Connected Value := do
  if name.isPresent then
    (← connection).check name
    collectionNames name.plain
  else if (← connection).database.isSome then throw .noTruth
  else return .list []

/-- The collections of a database; after a fault it reconnects and tries once more. -/
def collections (name : Value) : Connected Value :=
  Connected.orElse (collectionsOf name) (do
    reconnect
    Connected.orElse (collectionsOf name) (return .list []))

def establish (name : Value) : Connected Unit := do
  connect (← connection).address
  ping
  let names ← listDatabases
  change fun c => { c with available := names }
  if name.isPresent then let _ ← select name

def openConnection (check : Value → Except Fault Unit) (address name : Value) : Access Connection :=
  fun session =>
  match (establish name).run { Connection.fresh address with check := check } session with
  | ((.ok (), connection), session) => (.ok connection, session)
  | ((.error fault, _), session) => (.error fault, session)

/-- Uses a connection that is open already: another name selects another database. -/
def reuse (name : Value) : Connected Unit := do
  if name.isPresent && (← connection).name != name then let _ ← select name

end SqlGateway.Store
