import SqlGateway.Account.User

/-!
# Requests for a new password

A user who forgot the password gets a code of six digits, which is good for ten minutes and for one
use.  Failed verifications are counted.
-/

namespace SqlGateway.Account

open Store

/-- How long a code is good, in minutes. -/
def codeMinutes : Nat :=
  10

/-- A number with at least six characters. -/
def sixDigits (n : Int) : String :=
  if n < 0 then "-" ++ Timestamp.padded 5 n.natAbs else Timestamp.padded 6 n.natAbs

def codeOf (drawn : Value) : Except Fault String :=
  match drawn with
  | .int n => .ok (sixDigits (n + 100000))
  | .bool b => .ok (sixDigits ((if b then 1 else 0) + 100000))
  | _ => .error (.misused (.notNumber drawn.kind))

def resetRequest (now : Timestamp) (email : Value) (code : String) : Document :=
  [("email", email), ("code", .text code), ("created_at", .time now),
    ("expires_at", .time (now.addMinutes codeMinutes)), ("used", .bool false), ("attempts", .int 0)]

/-- Replaces the requests for a mail address by a new one, and gives its code or null. -/
def requestReset (a : Accounts) (now : Timestamp) (email : Value) : Access Value :=
  orNull do
    let code ← codeOf (← random 900000)
    let _ ← deleteMany a.resets (.doc [("email", email)])
    let (key, _) ← insertOne a.resets (.doc (resetRequest now email code))
    return if key.isPresent then .text code else .null

def codeFilter (now : Timestamp) (email code : Value) : Document :=
  [("email", email), ("code", code), ("used", .bool false),
    ("expires_at", .doc [("$gt", .time now)])]

def openFilter (email : Value) : Document :=
  [("email", email), ("used", .bool false)]

/-- Uses up the request that a code answers, or counts a failed verification. -/
def verifyCode (a : Accounts) (now : Timestamp) (email code : Value) : Access Bool :=
  tryCatch
    (do
      let request ← findOne a.resets (codeFilter now email code)
      if request.isPresent then
        let key ← request.need "_id"
        let _ ← updateOne a.resets [("_id", key)] [("$set", .doc [("used", .bool true)])]
        return true
      else
        let _ ← updateOne a.resets (openFilter email) [("$inc", .doc [("attempts", .int 1)])]
        return false)
    (fun _ => return false)

def removeExpired (a : Accounts) (now : Timestamp) : Access Unit :=
  tryCatch
    (do let _ ← deleteMany a.resets (.doc [("expires_at", .doc [("$lt", .time now)])]))
    (fun _ => return ())

def failedAttempts (a : Accounts) (email : Value) : Access Value :=
  tryCatch
    (do
      let request ← findOne a.resets (openFilter email)
      if request.isPresent then request.memberOr "attempts" (.int 0) else return .int 0)
    (fun _ => return .int 0)

def removeRequests (a : Accounts) (email : Value) : Access Unit := do
  let _ ← deleteMany a.resets (.doc [("email", email)])

end SqlGateway.Account
