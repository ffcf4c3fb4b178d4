import SqlGateway.Account.Reset
import SqlGateway.Http.Login

/-!
# Forgotten passwords

A user asks for a code, verifies it and sets a new password.
-/

namespace SqlGateway.Http

open Account Store

def recoveryError (_ : Fault) : Response :=
  .verdict 500 false "Error interno del servidor"

def codeSent (code : Value) : Response :=
  ⟨200, .doc [("success", .bool true),
    ("message", .text ("Código de verificación enviado. Código temporal: " ++ code.plain)),
    ("temp_code", code)], []⟩

/-- Issues a code.  An unknown mail address gets no code and does not show as unknown. -/
def forgotPassword (a : Accounts) (r : Request) : Connected Response :=
  catching recoveryError do
    let data ← r.document
    let email ← data.member "email"
    if !email.isPresent then return .verdict 400 false "Email es requerido"
    let user ← byEmail a email
    if !user.isPresent then
      return .verdict 200 true "Si el email existe, recibirás un código de verificación"
    let code ← requestReset a r.instant email
    if code.isPresent then return codeSent code
    else return .verdict 500 false "Error generando código de verificación"

/-- After how many failed verifications no more are accepted. -/
def attemptBound : Int :=
  3

def reaches (bound : Int) (count : Value) : Except Fault Bool :=
  match count with
  | .int n => .ok (bound ≤ n)
  | .bool b => .ok (bound ≤ if b then 1 else 0)
  | .float x => .ok (!x.isNaN && !x.less (.ofInt bound))
  | _ => .error (.misused (.notComparable count.kind "int"))

def verifyResetCode (a : Accounts) (r : Request) : Connected Response :=
  catching recoveryError do
    let data ← r.document
    let email ← data.member "email"
    let code ← data.member "code"
    if !email.isPresent || !code.isPresent then
      return .verdict 400 false "Email y código son requeridos"
    let attempts ← failedAttempts a email
    if ← reaches attemptBound attempts then
      return .verdict 429 false "Demasiados intentos fallidos. Solicita un nuevo código"
    if ← verifyCode a r.instant email code then
      return .verdict 200 true "Código verificado correctamente"
    else return .verdict 400 false "Código inválido o expirado"

/-- Sets a new password.  Afterwards the user is looked up once more, and has to be there. -/
def resetPassword (a : Accounts) (r : Request) : Connected Response :=
  catching recoveryError do
    let data ← r.document
    let email ← data.member "email"
    let password ← data.member "new_password"
    if !email.isPresent || !password.isPresent then
      return .verdict 400 false "Email y nueva contraseña son requeridos"
    if (← password.length) < Password.leastLength then return .verdict 400 false shortPassword
    if !(← setPassword a email password) then
      return .verdict 500 false "Error actualizando contraseña"
    removeRequests a email
    let user ← byEmail a email
    let _ ← user.member "username"
    return .verdict 200 true "Contraseña actualizada exitosamente"

end SqlGateway.Http
