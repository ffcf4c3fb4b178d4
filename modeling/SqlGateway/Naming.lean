import SqlGateway.Text.Basic
import SqlGateway.Value.Basic

/-!
# Names in the store

Which names databases and collections may have, and how a field name is made fit.
-/

namespace SqlGateway.Naming

def isForbidden (c : Char) : Bool :=
  [' ', '/', '\\', '.', '"', '$', Char.ofNat 0].contains c

def isDatabaseName : Value → Bool
  | .text s => !s.isEmpty && !s.toList.any isForbidden
  | _ => false

def isCollectionName : Value → Bool
  | .text s =>
    !s.isEmpty && !"system.".toList.isPrefixOf s.toList && !s.toList.contains (Char.ofNat 0)
  | _ => false

/-- A field name without points and without a leading dollar sign. -/
def fieldName (s : List Char) : List Char :=
  match s.map fun c => if c == '.' then '_' else c with
  | '$' :: rest => '_' :: rest
  | name => name

end SqlGateway.Naming
