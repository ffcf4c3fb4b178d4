import SqlGateway.Account.User
import SqlGateway.Http.Guard

/-!
# Registration and login

How users register, log in, renew a token and look at their own account.
-/

namespace SqlGateway.Http

open Account Store

/-- How many seconds a token that opens the gateway is good for. -/
def accessLifetime : Nat :=
  24 * 60 * 60

def refreshLifetime : Nat :=
  30 * 24 * 60 * 60

def accessToken (subject user : Value) : Except Fault Token := do
  let role ← (← user.need "role").write
  let permissions ← (← user.need "permissions").write
  return ⟨⟨.access, subject, some role, some permissions⟩, accessLifetime⟩

def refreshToken (subject : Value) : Token :=
  ⟨⟨.refresh, subject, none, none⟩, refreshLifetime⟩

/-! ### Registration -/

/-- The first of some members that is missing or empty. -/
def missingField? (data : Value) : List String → Except Fault (Option String)
  | [] => .ok none
  | name :: names => do
    if (← data.member name).isPresent then missingField? data names else return some name

def shortPassword : String :=
  "La contraseña debe tener al menos 6 caracteres"

def register (a : Accounts) (r : Request) : Connected Response :=
  catching internalError do
    let data ← r.document
    match ← missingField? data ["username", "email", "password"] with
    | some name => return .error 400 ("El campo " ++ name ++ " es requerido")
    | none =>
      let password ← data.need "password"
      if (← password.length) < Password.leastLength then return .error 400 shortPassword
      match ← createUser a r.instant (← data.need "username") (← data.need "email") password
          (.text "user") with
      | .error error => return .error 400 error.message
      | .ok user =>
        Response.json 201
          (.doc [("message", .text "Usuario registrado exitosamente"), ("user", .doc user)])

/-! ### Login -/

def loggedIn (user : Value) : Except Fault Response := do
  let role ← user.need "role"
  let permissions ← user.need "permissions"
  let key ← user.need "_id"
  let access ← accessToken key user
  let username ← user.need "username"
  let email ← user.need "email"
  let body ← Value.write (.doc [("message", .text "Inicio de sesión exitoso"),
    ("user", .doc [("id", key), ("username", username), ("email", email), ("role", role),
      ("permissions", permissions)])])
  return ⟨200, body, [("access_token", access), ("refresh_token", refreshToken key)]⟩

def readLogin (data : Value) : Except Fault (Value × Value) := do
  let username ← data.member "username"
  let login ← if username.isPresent then pure username else data.member "email"
  return (login, ← data.member "password")

def login (a : Accounts) (r : Request) : Connected Response :=
  catching internalError do
    let (login, password) ← readLogin (← r.document)
    if !login.isPresent || !password.isPresent then
      return .error 400 "Usuario/Email y contraseña son requeridos"
    let user ← authenticate a login password
    if user.isPresent then loggedIn user else return .error 401 "Credenciales inválidas"

/-! ### Own account -/

def userNotFound : Response :=
  .error 404 "Usuario no encontrado"

def refresh (a : Accounts) (r : Request) : Connected Response :=
  withToken .refresh r fun claims => catching internalError do
    let user ← byIdentity a claims.subject
    if user.isPresent then
      return ⟨200, .doc [], [("access_token", ← accessToken claims.subject user)]⟩
    else return userNotFound

def showUser (user : Value) : Except Fault Response :=
  if user.isPresent then Response.json 200 (.doc [("user", user)]) else .ok userNotFound

def profile (a : Accounts) (r : Request) : Connected Response :=
  withToken .access r fun claims => catching internalError do
    showUser (← byIdentity a claims.subject)

end SqlGateway.Http
