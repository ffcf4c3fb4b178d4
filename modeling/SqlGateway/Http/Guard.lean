import SqlGateway.Http.Response
import SqlGateway.Store.Connection

/-!
# Guards

A guard lets a request through to its handler, or answers in its place.
-/

namespace SqlGateway.Http

open Store

def catching (answer : Fault → Response) (handler : Connected Response) : Connected Response :=
  tryCatch handler (fun fault => return answer fault)

/-- The answer to a fault that is not told about. -/
def internalError (_ : Fault) : Response :=
  .error 500 "Error interno del servidor"

/-- The answer to a fault that is told about. -/
def toldError (fault : Fault) : Response :=
  .error 500 fault.message

def accessRequired : Response :=
  .error 401 "Token de acceso requerido o inválido"

/-- Lets a request with a token that opens the gateway through. -/
def withAccess (r : Request) (handler : Claims → Connected Response) : Connected Response :=
  match r.accessClaims? with
  | some claims => catching (fun _ => accessRequired) (handler claims)
  | none => return accessRequired

def withAdmin (r : Request) (handler : Claims → Connected Response) : Connected Response :=
  withAccess r fun claims =>
    if claims.role = some (.text "admin") then handler claims
    else return .error 403 "Permisos de administrador requeridos"

def withToken (kind : TokenKind) (r : Request) (handler : Claims → Connected Response) :
    Connected Response :=
  match r.credential with
  | .missing => return .error 401 "Token de autorización requerido"
  | .malformed => return .error 401 "Token inválido"
  | .token claims =>
    if claims.kind = kind then handler claims else return .error 401 "Token inválido"

end SqlGateway.Http
