import SqlGateway.Store.Server
import SqlGateway.Value.Access

/-!
# Operations of the store

Each operation makes one call and reads the reply.  A search is ordered, shortened and limited by
further calls.
-/

namespace SqlGateway.Store

open Access

/-! ### Connecting -/

def connect (address : Value) : Access Unit :=
  tell (.connect address)

def ping : Access Unit :=
  tell .ping

def databaseNames : Access Value :=
  ask .databaseNames (.list [])

/-! ### Databases -/

def collectionNames (database : String) : Access Value :=
  ask (.collectionNames database) (.list [])

def describe (database : String) (name : Value) : Access Value :=
  ask (.describeCollections database [("name", name)]) (.list [])

def createCollection (database : String) (name : Value) (options : Document) : Access Unit :=
  tell (.createCollection database name options)

def dropCollection (database : String) (name : Value) : Access Unit :=
  tell (.dropCollection database name)

/-! ### Reading -/

def find (place : Place) (filter projection : Value) : Access Value :=
  ask (.find place filter projection) (.list [])

def sort (place : Place) (keys : Document) : Access Unit :=
  tell (.sort place keys)

def skip (place : Place) (count : Value) : Access Unit :=
  tell (.skip place count)

def limit (place : Place) (count : Value) : Access Unit :=
  tell (.limit place count)

def aggregate (place : Place) (pipeline : Value) : Access Value :=
  ask (.aggregate place pipeline) (.list [])

def findOne (place : Place) (filter : Document) : Access Value :=
  ask (.findOne place filter) .null

def indexes (place : Place) : Access Value :=
  ask (.indexes place) (.list [])

/-! ### Writing -/

/-- The identity that a document has, or else a new one. -/
def ownIdentity (document : Value) : Access Value := do
  let own ← document.member "_id"
  if own.isPresent then return own else return .id (← issue)

/-- A document with an identity, unless it has one already. -/
def withIdentity (document key : Value) : Value :=
  match document with
  | .doc d => if Document.has d "_id" then document else .doc (Document.set d "_id" key)
  | _ => document

def insertOne (place : Place) (document : Value) : Access (Value × Value) := do
  let key ←
    match ← ask? (.insertOne place document) with
    | some key => pure key
    | none => ownIdentity document
  return (key, withIdentity document key)

def insertMany (place : Place) (documents : Value) : Access (List Value) := do
  match ← ask? (.insertMany place documents) with
  | some keys => keys.items
  | none => (← documents.items).mapM ownIdentity

/-- What an update did: how many documents it selected and changed, and the identity of a document
that it added. -/
structure Updated where
  matched : Value
  modified : Value
  added : Value

def readUpdated (reply : Value) : Except Fault Updated := do
  match ← reply.items with
  | matched :: modified :: added :: _ => return ⟨matched, modified, added⟩
  | _ => throw (.misused (.other "not enough values to unpack"))

def nothingUpdated : Value :=
  .list [.int 0, .int 0, .null]

def updateMany (place : Place) (filter update : Value) : Access Updated := do
  readUpdated (← ask (.updateMany place filter update) nothingUpdated)

def updateOne (place : Place) (filter update : Document) : Access Updated := do
  readUpdated (← ask (.updateOne place filter update) nothingUpdated)

def deleteMany (place : Place) (filter : Value) : Access Value :=
  ask (.deleteMany place filter) (.int 0)

def createIndex (place : Place) (keys unique name : Value) : Access Value :=
  ask (.createIndex place keys unique name) (if name.isPresent then name else .text "index")

def drop (place : Place) : Access Unit :=
  tell (.drop place)

/-! ### Time and chance -/

def pause (seconds : Value) : Access Unit :=
  tell (.pause seconds)

def random (bound : Nat) : Access Value :=
  ask (.random bound) (.int 23456)

end SqlGateway.Store
