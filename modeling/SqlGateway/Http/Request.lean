import SqlGateway.Value.Access

/-!
# Requests

A request has a method and a path; it may carry a document and a token.  Tokens are taken as already
decoded: what matters is who holds one, and what it claims.
-/

namespace SqlGateway.Http

inductive Method where
  | get
  | post
  | put
  | head
  | options
  | other
  deriving DecidableEq, Repr

/-- Whether a token opens the gateway, or only serves to get another one. -/
inductive TokenKind where
  | access
  | refresh
  deriving DecidableEq, Repr

structure Claims where
  kind : TokenKind
  subject : Value
  role : Option Value
  permissions : Option Value
  deriving DecidableEq, Repr

/-- What a request carries to prove who sends it. -/
inductive Credential where
  | missing
  | malformed
  | token (claims : Claims)
  deriving DecidableEq, Repr

structure Request where
  method : Method
  path : String
  body : Option Value
  credential : Credential
  /-- When the request is handled. -/
  instant : Timestamp
  deriving DecidableEq, Repr

namespace Request

def document (r : Request) : Except Fault Value :=
  match r.body with
  | some v => .ok v
  | none => .error .noBody

def accessClaims? (r : Request) : Option Claims :=
  match r.credential with
  | .token claims => if claims.kind = .access then some claims else none
  | _ => none

end Request

/-- Whether a document that came with a request is there and has a member. -/
def carries (data : Value) (name : String) : Except Fault Bool :=
  if data.isPresent then data.mentions name else .ok false

end SqlGateway.Http
