import SqlGateway.Http.Admin
import SqlGateway.Http.Path
import SqlGateway.Http.Query
import SqlGateway.Http.Recovery

/-!
# Routes

Which handler answers a request.
-/

namespace SqlGateway.Http

open Account Store

inductive Route where
  | health
  | databases
  | collections (database : String)
  | connect
  | runStatement
  | showCommand
  | testConnection
  | supportedSql
  | register
  | login
  | refresh
  | profile
  | forgotPassword
  | verifyResetCode
  | resetPassword
  | users
  | user (key : String)
  | userPermissions (key : String)
  | userStatus (key : String)
  | permissions
  | statistics
  deriving DecidableEq, Repr

namespace Route

def ofParts? : List String → Option Route
  | ["health"] => some health
  | ["databases"] => some databases
  | ["database", name, "collections"] => some (collections name)
  | ["connect"] => some connect
  | ["translate"] => some runStatement
  | ["generate-shell-query"] => some showCommand
  | ["test-connection"] => some testConnection
  | ["supported-sql"] => some supportedSql
  | ["api", "auth", "register"] => some register
  | ["api", "auth", "login"] => some login
  | ["api", "auth", "refresh"] => some refresh
  | ["api", "auth", "profile"] => some profile
  | ["api", "auth", "forgot-password"] => some forgotPassword
  | ["api", "auth", "verify-reset-code"] => some verifyResetCode
  | ["api", "auth", "reset-password"] => some resetPassword
  | ["admin", "users"] => some users
  | ["admin", "users", key] => some (user key)
  | ["admin", "users", key, "permissions"] => some (userPermissions key)
  | ["admin", "users", key, "status"] => some (userStatus key)
  | ["admin", "permissions", "available"] => some permissions
  | ["admin", "stats"] => some statistics
  | _ => none

def ofPath? (path : String) : Option Route :=
  (Path.parts? path).bind ofParts?

def method : Route → Method
  | connect | runStatement | showCommand => .post
  | register | login | refresh => .post
  | forgotPassword | verifyResetCode | resetPassword => .post
  | userPermissions _ | userStatus _ => .put
  | _ => .get

def handle (a : Accounts) (r : Request) : Route → Connected Response
  | health => Http.health
  | databases => listDatabasesFor r
  | collections database => listCollections r database
  | connect => connectTo r
  | runStatement => Http.runStatement r
  | showCommand => Http.showCommand r
  | testConnection => Http.testConnection r
  | supportedSql => Http.supportedSql r
  | register => Http.register a r
  | login => Http.login a r
  | refresh => Http.refresh a r
  | profile => Http.profile a r
  | forgotPassword => Http.forgotPassword a r
  | verifyResetCode => Http.verifyResetCode a r
  | resetPassword => Http.resetPassword a r
  | users => listUsers a r
  | user key => userDetails a r key
  | userPermissions key => changePermissions a r key
  | userStatus key => changeStatus a r key
  | permissions => availablePermissions r
  | statistics => showStatistics a r

end Route

/-- Answers a request.  One for the head alone does what one for the whole does, and every route
tells its options. -/
def respond (a : Accounts) (r : Request) : Connected Response :=
  match Route.ofPath? r.path with
  | none => return .empty 404
  | some route =>
    if r.method = route.method then route.handle a r
    else if r.method = .options then return .empty 200
    else if r.method = .head && route.method = .get then do
      return .empty (← route.handle a r).status
    else return .empty 405

end SqlGateway.Http
