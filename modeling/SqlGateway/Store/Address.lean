import SqlGateway.Number.Read
import SqlGateway.Text.Pattern
import SqlGateway.Value.Basic

/-!
# Addresses of a store

An address has a protocol, perhaps credentials, hosts with socket numbers and perhaps a database.
-/

namespace SqlGateway.Store

open Text Pattern

structure Host where
  name : String
  socket : Int
  deriving DecidableEq, Repr

structure Address where
  protocol : String
  credentials : Option (String × Option String)
  hosts : Option (List Host)
  database : Option String
  deriving DecidableEq, Repr

namespace Address

def protocolPattern : Pattern :=
  keep "protocol" (exactly "mongodb" ++ opt (exactly "+srv")) ++ exactly "://"

def credentialsPattern : Pattern :=
  keep "user" (many1 (noneOf [':', '@'])) ++
    opt (exactly ":" ++ keep "password" (many1 (noneOf ['@']))) ++ exactly "@"

def hostsPattern : Pattern :=
  many1 (noneOf ['/'])

def databasePattern : Pattern :=
  exactly "//" ++ keep "database" (many1 (noneOf ['?']))

def defaultSocket : Int :=
  27017

/-- Reads a host; what follows a colon has to be a number. -/
def readHost (s : List Char) : Except NumberError Host :=
  match cutAt? [':'] s with
  | some (name, socket) => (Number.readInt socket).map fun n => ⟨String.ofList name, n⟩
  | none => .ok ⟨String.ofList s, defaultSocket⟩

def read (s : List Char) : Except NumberError Address := do
  let (protocol, rest) :=
    match protocolPattern.matches? s with
    | some m => (String.ofList (m.get "protocol"), m.rest)
    | none => ("mongodb", s)
  let (credentials, rest) :=
    match credentialsPattern.matches? rest with
    | some m =>
      (some (String.ofList (m.get "user"), (m.get? "password").map String.ofList), m.rest)
    | none => (none, rest)
  let (hosts, rest) ←
    match hostsPattern.matches? rest with
    | some m => do
      let hosts ← (splitAtChar ',' m.text).mapM readHost
      pure (some hosts, m.rest)
    | none => pure (none, rest)
  let database := (databasePattern.matches? rest).map fun m => String.ofList (m.get "database")
  return ⟨protocol, credentials, hosts, database⟩

def hostDocument (h : Host) : Value :=
  .doc [("host", .text h.name), ("port", .int h.socket)]

def toDocument (a : Address) : Document :=
  [("protocol", .text a.protocol)] ++
  (match a.credentials with
    | some (user, password) => [("username", .text user), ("password", .ofText? password)]
    | none => []) ++
  (match a.hosts with
    | some hosts => [("hosts", .list (hosts.map hostDocument))]
    | none => []) ++
  (match a.database with
    | some name => [("database", .text name)]
    | none => [])

end Address

end SqlGateway.Store
