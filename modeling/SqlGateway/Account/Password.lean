import SqlGateway.Fault
import SqlGateway.Store.Call

/-!
# Passwords

Accounts do not keep a password itself, but a digest of it.
-/

namespace SqlGateway.Account.Password

/-- How passwords are kept. -/
structure Scheme where
  /-- The digest of a password.  It may be another one each time, depending on the calls made before. -/
  digest : List Store.Call → String → Except Fault (List UInt8)
  /-- The verdict on a password and what is kept of one. -/
  fits : String → Value → Except Fault Bool

def leastLength : Nat :=
  6

end SqlGateway.Account.Password
