import SqlGateway.Http.Login

/-!
# Administration

What administrators do with accounts.  Nobody deactivates the own account.
-/

namespace SqlGateway.Http

open Account Store

def listUsers (a : Accounts) (r : Request) : Connected Response :=
  withAdmin r fun _ => catching internalError do
    Response.json 200 (.doc [("users", .list (← allUsers a))])

def userDetails (a : Accounts) (r : Request) (key : String) : Connected Response :=
  withAdmin r fun _ => catching internalError do
    showUser (← byIdentity a (.text key))

/-! ### Permissions -/

def isBool : Value → Bool
  | .bool _ => true
  | _ => false

/-- What is wrong with some permissions: the first member that names none, or whose value is neither
true nor false. -/
def permissionProblem? : Document → Option String
  | [] => none
  | (name, v) :: rest =>
    if !Permission.isName name then some ("Permiso inválido: " ++ name)
    else if !isBool v then some ("El valor del permiso " ++ name ++ " debe ser booleano")
    else permissionProblem? rest

def changePermissions (a : Accounts) (r : Request) (key : String) : Connected Response :=
  withAdmin r fun _ => catching internalError do
    let data ← r.document
    if !(← carries data "permissions") then
      return .error 400 "Se requieren los permisos a actualizar"
    match ← data.need "permissions" with
    | .doc permissions =>
      match permissionProblem? permissions with
      | some problem => return .error 400 problem
      | none =>
        if ← setPermissions a r.instant (.text key) (.doc permissions) then
          return .message 200 "Permisos actualizados correctamente"
        else return .error 400 "No se pudieron actualizar los permisos"
    | _ => return .error 400 "Los permisos deben ser un objeto"

def changeStatus (a : Accounts) (r : Request) (key : String) : Connected Response :=
  withAdmin r fun claims => catching internalError do
    let data ← r.document
    if !(← carries data "is_active") then return .error 400 "Se requiere el estado is_active"
    match ← data.need "is_active" with
    | .bool active =>
      if claims.subject = .text key && !active then
        return .error 400 "No puedes desactivarte a ti mismo"
      if ← setActive a r.instant (.text key) (.bool active) then
        return .message 200
          ("Usuario " ++ (if active then "activado" else "desactivado") ++ " correctamente")
      else return .error 400 "No se pudo actualizar el estado del usuario"
    | _ => return .error 400 "El campo is_active debe ser booleano"

def permissionEntry (p : Permission) : String × Value :=
  (p.name, .doc [("name", .text p.describe.1), ("description", .text p.describe.2)])

def availablePermissions (r : Request) : Connected Response :=
  withAdmin r fun _ => catching internalError do
    Response.json 200 (.doc [("permissions", .doc (Permission.all.map permissionEntry))])

/-! ### Statistics -/

def hasRole (role : String) (user : Value) : Except Fault Bool := do
  return (← user.member "role") == .text role

def isActive (user : Value) : Except Fault Bool := do
  return (← user.memberOr "is_active" (.bool true)).isPresent

def statistics (users : List Value) : Except Fault Value := do
  let active ← users.filterM isActive
  let admins ← users.filterM (hasRole "admin")
  let regular ← users.filterM (hasRole "user")
  return .doc [("total_users", .ofNat users.length), ("active_users", .ofNat active.length),
    ("admin_users", .ofNat admins.length), ("regular_users", .ofNat regular.length)]

def showStatistics (a : Accounts) (r : Request) : Connected Response :=
  withAdmin r fun _ => catching internalError do
    let users ← allUsers a
    Response.json 200 (.doc [("stats", ← statistics users)])

end SqlGateway.Http
