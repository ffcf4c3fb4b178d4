import SqlGateway.Account.Password
import SqlGateway.Account.Permission
import SqlGateway.Store.Operation

/-!
# Users

The accounts that may use the gateway.  A user that is handed out has its identity as a text and no
password.  Where the store fails, a user counts as not found and a change as not made.
-/

namespace SqlGateway.Account

open Store

structure Accounts where
  database : String
  passwords : Password.Scheme

namespace Accounts

def users (a : Accounts) : Place :=
  ⟨a.database, "users"⟩

/-- The collection of requests for a new password. -/
def resets (a : Accounts) : Place :=
  ⟨a.database, "password_resets"⟩

end Accounts

/-! ### Identities -/

def isHexDigit (c : Char) : Bool :=
  c.isDigit || ('a' ≤ c && c ≤ 'f') || ('A' ≤ c && c ≤ 'F')

/-- Reads an identity: 24 hexadecimal digits, whose case does not matter. -/
def readIdentity (v : Value) : Except Fault ObjectId :=
  match v with
  | .id key => .ok key
  | .text s =>
    if s.length = 24 && s.toList.all isHexDigit then .ok ⟨s.map Char.toLower⟩
    else .error (.badIdentity s)
  | _ => .error (.badIdentity v.plain)

/-! ### Reading -/

def visible (user : Value) : Except Fault Value := do
  let key ← user.need "_id"
  let _ ← user.need "password"
  let members ← user.members "items"
  return .doc ((members.set "_id" (.text key.plain)).erase "password")

def found (user : Value) : Except Fault Value :=
  if user.isPresent then visible user else .ok .null

def orNull (x : Access Value) : Access Value :=
  tryCatch x (fun _ => return .null)

def byIdentity (a : Accounts) (key : Value) : Access Value :=
  orNull do
    let key ← readIdentity key
    found (← findOne a.users [("_id", .id key)])

def byEmail (a : Accounts) (email : Value) : Access Value :=
  orNull do found (← findOne a.users [("email", email)])

def entry (user : Value) : Except Fault Value := do
  let key ← user.need "_id"
  let members ← user.members "items"
  return .doc (members.set "_id" (.text key.plain))

/-- All users; none if the list cannot be read. -/
def allUsers (a : Accounts) : Access (List Value) :=
  tryCatch
    (do
      let users ← find a.users (.doc []) (.doc [("password", .int 0)])
      let entries : Except Fault (List Value) := do (← users.items).mapM entry
      entries)
    (fun _ => return [])

def loginFilter (login : Value) : Document :=
  [("$or", .list [.doc [("username", login)], .doc [("email", login)]])]

/-- Hands out a user whose password fits and whose account is active, or null. -/
def accept (a : Accounts) (password user : Value) : Except Fault Value := do
  if !user.isPresent then return .null
  let kept ← user.need "password"
  let password ← password.asText "encode"
  if !(← a.passwords.fits password kept) then return .null
  let active ← user.memberOr "is_active" (.bool true)
  if active.isPresent then visible user else return .null

def authenticate (a : Accounts) (login password : Value) : Access Value :=
  orNull do accept a password (← findOne a.users (loginFilter login))

/-! ### Creating -/

/-- Makes names and mail addresses unique. -/
def createIndexes (a : Accounts) : Access Unit := do
  let _ ← createIndex a.users (.text "username") (.bool true) .null
  let _ ← createIndex a.users (.text "email") (.bool true) .null

inductive CreationError where
  | nameTaken
  | emailTaken
  | failed (fault : Fault)
  deriving DecidableEq, Repr

def CreationError.message : CreationError → String
  | nameTaken => "El nombre de usuario ya existe"
  | emailTaken => "El email ya está registrado"
  | failed fault => fault.message

def newUser (now : Timestamp) (username email role : Value) (digest : List UInt8) : Document :=
  [("username", username), ("email", email), ("password", .bytes digest), ("role", role),
    ("permissions", .doc (Permission.defaults role)), ("is_active", .bool true),
    ("created_at", .time now), ("updated_at", .time now)]

def digested (a : Accounts) (password : Value) : Access (List UInt8) := do
  a.passwords.digest (← Access.calls) (← password.asText "encode")

/-- Stores a new user, unless the name or the mail address is taken. -/
def storeUser (a : Accounts) (now : Timestamp) (username email password role : Value) :
    Access (Except CreationError Document) := do
  if (← findOne a.users [("username", username)]).isPresent then return .error .nameTaken
  if (← findOne a.users [("email", email)]).isPresent then return .error .emailTaken
  let user := newUser now username email role (← digested a password)
  let (key, _) ← insertOne a.users (.doc user)
  return .ok ((user.set "_id" (.text key.plain)).erase "password")

def createUser (a : Accounts) (now : Timestamp) (username email password role : Value) :
    Access (Except CreationError Document) :=
  tryCatch (storeUser a now username email password role) fun fault => return .error (.failed fault)

def ensureAdmin (a : Accounts) (now : Timestamp) : Access Unit := do
  let admin ← findOne a.users [("role", .text "admin")]
  if !admin.isPresent then
    let _ ← createUser a now (.text "admin") (.text "admin@localhost") (.text "admin123")
      (.text "admin")

/-! ### Changing -/

def isPositive : Value → Bool
  | .int n => n > 0
  | .bool b => b
  | .float x => (Double.zero false).less x
  | _ => false

/-- Sets members of the user that a filter selects. -/
def changeUser (a : Accounts) (filter : Except Fault Document) (members : Access Document) :
    Access Bool :=
  tryCatch
    (do
      let members ← members
      let done ← updateOne a.users (← filter) [("$set", .doc members)]
      return isPositive done.modified)
    (fun _ => return false)

def identityFilter (key : Value) : Except Fault Document := do
  return [("_id", .id (← readIdentity key))]

def setPermissions (a : Accounts) (now : Timestamp) (key permissions : Value) : Access Bool :=
  changeUser a (identityFilter key) (return [("permissions", permissions), ("updated_at", .time now)])

def setActive (a : Accounts) (now : Timestamp) (key active : Value) : Access Bool :=
  changeUser a (identityFilter key) (return [("is_active", active), ("updated_at", .time now)])

def setPassword (a : Accounts) (email password : Value) : Access Bool :=
  changeUser a (.ok [("email", email)]) do return [("password", .bytes (← digested a password))]

end SqlGateway.Account
